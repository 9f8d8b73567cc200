import Bip360Enforcer.Validator.Lemmas.Batch
import Bip360Enforcer.Validator.Lemmas.ChainIndex
import Bip360Enforcer.Validator.Lemmas.Presented
import Bip360Enforcer.Validator.Theorems.Ledger

/-!
# The chain index in every reachable database
-/

namespace Bip360Enforcer.Validator

open Program (wp)

variable {C : Crypto} {headers : Set Header} {heightOf : BlockHash → Nat} {dbs : Dbs} {s t : Store}
  {source : HeaderSource} {handler : BlockHandler} {block : Block} {blocks : List Block}

/-! ## What the node answers -/

/-- An entry that says of its header what is so. -/
structure RestHeader.Honest (C : Crypto) (headers : Set Header) (heightOf : BlockHash → Nat)
    (entry : RestHeader) : Prop where
  known : entry.header ∈ headers
  hash : entry.hash = C.blockHash entry.header
  height : entry.height = heightOf entry.hash

/-- The entries are those of blocks on top of `parent`, each on top of the one before it. -/
def Ascends (C : Crypto) (headers : Set Header) (heightOf : BlockHash → Nat) :
    BlockHash → List RestHeader → Prop
  | _, [] => True
  | parent, entry :: entries =>
      entry.Honest C headers heightOf ∧ entry.header.prevBlockhash = parent ∧
        Ascends C headers heightOf entry.hash entries

/-- The node knows the heights of its blocks, and answers a request for headers with those of a chain
from the requested block on. -/
structure HonestHeaders (C : Crypto) (headers : Set Header) (heightOf : BlockHash → Nat)
    (source : HeaderSource) : Prop where
  blockHash : ∀ n height hash, source.getblockhash n height = .ok hash → heightOf hash = height
  answers : ∀ answer ∈ source.getBlockHeaders, ∀ hash count first rest,
    answer hash count = .ok (first :: rest) →
    first.hash = hash ∧ first.Honest C headers heightOf ∧ Ascends C headers heightOf hash rest

/-! ## Header syncs -/

/-- A block from which headers can be fetched: it is stored, or it is a first one. -/
def Anchored (heightOf : BlockHash → Nat) (dbs : Dbs) (blockHash : BlockHash) : Prop :=
  (dbs.header.lookup blockHash).isSome ∨ heightOf blockHash = 0

def storedEntries (entries : List RestHeader) : List (Header × Nat) :=
  entries.map fun entry => (entry.header, entry.height)

/-- The headers of an answer are stored one on top of the other. -/
theorem putHeaders_chainIndex {ε : Type} [FromDb ε] {first : RestHeader} {rest : List RestHeader}
    {fault : ε → Prop} {failed : ε → Dbs → Prop} (hhashes : HonestHashes C headers)
    (hheights : BlockHeights C headers heightOf) (h : ChainIndex C headers heightOf dbs)
    (hparent : first.header.prevBlockhash ≠ .allZeros →
      (dbs.header.lookup first.header.prevBlockhash).isSome)
    (hfirst : first.Honest C headers heightOf) (hrest : Ascends C headers heightOf first.hash rest)
    (hfault : fault (fromDb .io)) :
    Spec (putHeaders C (storedEntries (first :: rest))) dbs
      (fun _ d => ChainIndex C headers heightOf d ∧
        (d.header.lookup ((rest.map RestHeader.hash).getLast?.getD first.hash)).isSome) failed fault := by
  induction rest generalizing first dbs with
  | nil =>
      refine (putHeaders_singleton_spec hfault).mono ?_ (fun _ _ h => h) fun _ h => h
      rintro - d rfl
      rw [hfirst.height, hfirst.hash]
      refine ⟨h.withHeader hhashes hheights hfirst.known hparent, ?_⟩
      exact Option.isSome_iff_exists.mpr ⟨_, AList.lookup_insert _⟩
  | cons next rest ih =>
      obtain ⟨hnext, hprev, hrest⟩ := hrest
      refine Spec.bind ((putHeader_spec hfault).mono ?_ (fun _ _ h => h) fun _ h => h)
      rintro - d rfl
      have hindex := h.withHeader hhashes hheights hfirst.known hparent
      rw [← hfirst.hash, ← hfirst.height] at hindex
      have hstored : ((withHeader C first.header first.height dbs).header.lookup first.hash).isSome := by
        rw [hfirst.hash]
        exact Option.isSome_iff_exists.mpr ⟨_, AList.lookup_insert _⟩
      have hlast : ((next :: rest).map RestHeader.hash).getLast?.getD first.hash =
          (rest.map RestHeader.hash).getLast?.getD next.hash := by
        rw [List.map_cons, List.getLast?_cons]
        rfl
      rw [hlast]
      exact ih hindex (fun _ => hprev ▸ hstored) hnext hrest

/-- An answer that starts at a stored block or a first one. -/
theorem storeHeaders_chainIndex {first : RestHeader} {rest : List RestHeader}
    (hhashes : HonestHashes C headers) (hheights : BlockHeights C headers heightOf)
    (h : ChainIndex C headers heightOf s.dbs) (hanchored : Anchored heightOf s.dbs first.hash)
    (hfirst : first.Honest C headers heightOf) (hrest : Ascends C headers heightOf first.hash rest) :
    wp (Validator.storeHeaders C (storedEntries (first :: rest)))
      (fun _ t => ChainIndex C headers heightOf t.dbs ∧
        (t.dbs.header.lookup ((rest.map RestHeader.hash).getLast?.getD first.hash)).isSome)
      (fun _ t => ChainIndex C headers heightOf t.dbs) s := by
  have hparent : first.header.prevBlockhash ≠ .allZeros →
      (s.dbs.header.lookup first.header.prevBlockhash).isSome := by
    intro hzero
    rcases hanchored with hstored | hheight
    · obtain ⟨header, hlookup⟩ := Option.isSome_iff_exists.mp hstored
      obtain ⟨hmem, hhash⟩ := h.keyed _ _ hlookup
      obtain rfl := hhashes.injective hmem hfirst.known (hhash.trans hfirst.hash)
      exact h.parent _ _ hlookup hzero
    · rw [hfirst.hash, hheights.next _ hfirst.known hzero] at hheight
      cases hheight
  have hput : Spec (putHeaders C (storedEntries (first :: rest)) : Db SyncError Unit) s.dbs _
      (fun _ _ => True) fun _ => True :=
    putHeaders_chainIndex hhashes hheights h hparent hfirst hrest trivial
  unfold Validator.storeHeaders
  refine wp_transaction (fun _ => h) ?_
  rw [Program.wp_bind]
  refine (hput s.next.begin rfl).mono ?_ fun _ _ _ => h
  rintro - t ⟨-, hindex, hlast⟩
  exact wp_access.mpr ⟨fun _ => h, fun _ => ⟨hindex, hlast⟩⟩

theorem fetchHeaders_chainIndex {mainTip current : BlockHash} {mainTipHeight currentHeight : Nat}
    {answers : List (BlockHash → Nat → Except SyncError (List RestHeader))}
    (hhashes : HonestHashes C headers) (hheights : BlockHeights C headers heightOf)
    (hanswers : ∀ answer ∈ answers, ∀ hash count first rest,
      answer hash count = .ok (first :: rest) →
      first.hash = hash ∧ first.Honest C headers heightOf ∧ Ascends C headers heightOf hash rest)
    (h : ChainIndex C headers heightOf s.dbs) (hanchored : Anchored heightOf s.dbs current) :
    wp (fetchHeaders C mainTip mainTipHeight answers current currentHeight)
      (fun _ t => ChainIndex C headers heightOf t.dbs) (fun _ t => ChainIndex C headers heightOf t.dbs)
      s := by
  induction answers generalizing s current currentHeight with
  | nil => exact h
  | cons answer answers ih =>
      rw [fetchHeaders, Program.wp_bind, Program.wp_ofExcept]
      refine ⟨fun entries hentries => ?_, fun _ _ => h⟩
      cases entries with
      | nil => exact h
      | cons first rest =>
          obtain ⟨rfl, hfirst, hrest⟩ := hanswers answer List.mem_cons_self _ _ _ _ hentries
          have hlast : (first :: rest).getLast? = some (rest.getLast?.getD first) := List.getLast?_cons
          have hlastHash : (rest.map RestHeader.hash).getLast?.getD first.hash =
              (rest.getLast?.getD first).hash := by
            rw [List.getLast?_map]
            cases rest.getLast? <;> rfl
          simp only [hlast]
          rw [Program.wp_bind]
          refine (storeHeaders_chainIndex hhashes hheights h hanchored hfirst hrest).mono ?_
            fun _ _ h => h
          rintro - t ⟨hindex, hstored⟩
          rw [hlastHash] at hstored
          refine Program.wp_ite.mpr ⟨fun _ => hindex, fun _ => ?_⟩
          refine Program.wp_ite.mpr ⟨fun _ => hindex, fun _ => ?_⟩
          exact ih (fun answer hanswer => hanswers answer (List.mem_cons_of_mem _ hanswer)) hindex
            (.inl hstored)

/-- The search reads only, and finds a stored header if any. -/
theorem searchBestAncestor_wp {fuel asked missing : Nat} {best : Option (BlockHash × Nat)}
    (hbest : ∀ ancestor height, best = some (ancestor, height) →
      (s.dbs.header.lookup ancestor).isSome) :
    wp (searchBestAncestor source fuel asked best missing)
      (fun found t => t.dbs = s.dbs ∧ ∀ ancestor height, found = some (ancestor, height) →
        (s.dbs.header.lookup ancestor).isSome)
      (fun _ t => t.dbs = s.dbs) s := by
  induction fuel generalizing s asked missing best with
  | zero => rfl
  | succ fuel ih =>
      rw [searchBestAncestor]
      refine Program.wp_ite.mpr ⟨fun _ => ⟨rfl, hbest⟩, fun _ => ?_⟩
      rw [Program.wp_bind, Program.wp_ofExcept]
      refine ⟨fun midpoint _ => ?_, fun _ _ => rfl⟩
      rw [Program.wp_bind, wp_access]
      refine ⟨fun _ => rfl, fun _ => ?_⟩
      rw [Program.wp_bind, containsHeader, wp_read]
      refine ⟨fun _ => rfl, fun _ => ?_⟩
      have hbest' : ∀ ancestor height, best = some (ancestor, height) →
          (s.next.next.dbs.header.lookup ancestor).isSome := hbest
      refine Program.wp_ite.mpr ⟨fun hstored => ih fun ancestor height heq => ?_, fun _ => ih hbest'⟩
      cases heq
      exact hstored

theorem fetchBestAncestor_wp {nodeTip : BlockHash} {nodeTipHeight : Nat} :
    wp (fetchBestAncestor source nodeTip nodeTipHeight)
      (fun found t => t.dbs = s.dbs ∧ ∀ ancestor height, found = some (ancestor, height) →
        (s.dbs.header.lookup ancestor).isSome)
      (fun _ t => t.dbs = s.dbs) s := by
  unfold fetchBestAncestor
  refine Program.wp_ite.mpr ⟨fun _ => ⟨rfl, fun _ _ hnone => by cases hnone⟩, fun _ => ?_⟩
  rw [Program.wp_bind, wp_access]
  refine ⟨fun _ => rfl, fun _ => ?_⟩
  rw [Program.wp_bind, containsHeader, wp_read]
  refine ⟨fun _ => rfl, fun _ => Program.wp_ite.mpr ⟨fun hstored => ⟨rfl, fun ancestor height heq => ?_⟩,
    fun _ => ?_⟩⟩
  · cases heq
    exact hstored
  · have hsearch := @searchBestAncestor_wp s.next.next source (nodeTipHeight + 1) 0 nodeTipHeight none
      fun _ _ hnone => by cases hnone
    exact hsearch

theorem syncHeaders_chainIndex {mainTip : BlockHash} (hhashes : HonestHashes C headers)
    (hheights : BlockHeights C headers heightOf) (hsource : HonestHeaders C headers heightOf source)
    (h : ChainIndex C headers heightOf s.dbs) :
    wp (syncHeaders source C mainTip) (fun _ t => ChainIndex C headers heightOf t.dbs)
      (fun _ t => ChainIndex C headers heightOf t.dbs) s := by
  unfold syncHeaders
  refine Program.wp_ite.mpr ⟨fun _ => h, fun _ => ?_⟩
  rw [Program.wp_bind, Program.wp_ofExcept]
  refine ⟨fun mainTipHeight _ => ?_, fun _ _ => h⟩
  rw [Program.wp_bind]
  refine fetchBestAncestor_wp.mono ?_ fun _ t ht => ht ▸ h
  rintro found t ⟨hdbs, hstored⟩
  have ht : ChainIndex C headers heightOf t.dbs := hdbs ▸ h
  rcases found with _ | ⟨ancestor, height⟩
  · rw [Program.wp_bind, Program.wp_ofExcept]
    refine ⟨fun genesis hgenesis => ?_, fun _ _ => ht⟩
    exact fetchHeaders_chainIndex hhashes hheights hsource.answers ht
      (.inr (hsource.blockHash _ _ _ hgenesis))
  · refine Program.wp_ite.mpr ⟨fun _ => ht, fun _ => ?_⟩
    refine fetchHeaders_chainIndex hhashes hheights hsource.answers ht (.inl ?_)
    rw [hdbs]
    exact hstored ancestor height rfl

/-! ## Connecting -/

/-- An accepted block becomes the tip, and its diff is applied to the table. -/
theorem connectBlock_chainIndex {event : Event} (hhashes : HonestHashes C headers)
    (hheights : BlockHeights C headers heightOf) (hblock : block.header ∈ headers)
    (h : ChainIndex C headers heightOf s.dbs) (hrun : handler.connectBlock C block s = (.ok event, t)) :
    ChainIndex C headers heightOf t.dbs ∧
      t.dbs.currentChainTip = some (C.blockHash block.header) := by
  obtain ⟨-, height, coinbase, txs, diff, header, work, hconnects, -⟩ :=
    (connectBlock_spec fun _ h => h).ok hrun
  have hindex := h.connect hhashes hheights hblock hconnects
  obtain ⟨-, hdbs⟩ := h.connects_tip hhashes hheights hblock hconnects
  exact ⟨hindex, by rw [hdbs]⟩

theorem validator_connectBlock_chainIndex {validator : Validator} (hhashes : HonestHashes C headers)
    (hheights : BlockHeights C headers heightOf) (hblock : block.header ∈ headers)
    (h : ChainIndex C headers heightOf s.dbs) :
    wp (validator.connectBlock C block)
      (fun action t => ChainIndex C headers heightOf t.dbs ∧
        (action = .accept → t.dbs.currentChainTip = some (C.blockHash block.header)))
      (fun _ t => ChainIndex C headers heightOf t.dbs) s := by
  refine connectBlock_wp.mono ?_ fun _ t ht => ht.dbs ▸ h
  rintro action t ⟨extra, -, -, -, haction⟩
  cases action with
  | accept =>
      obtain ⟨event, u, v, haccepted, -⟩ := haction
      have hstored := h.headerStored hhashes hheights hblock haccepted.header
      rw [haccepted.result]
      obtain ⟨hindex, htip⟩ := connectBlock_chainIndex hhashes hheights hblock hstored haccepted.run
      exact ⟨hindex, fun _ => htip⟩
  | reject => exact ⟨h.headerStored hhashes hheights hblock haction.1, fun hne => by cases hne⟩

/-- What a batch leaves as the tip: the last block that it has accepted, if any. -/
structure EndsOn (C : Crypto) (blocks : List Block) (dbs : Dbs)
    (outcome : Option (BlockHash × ConnectBlockError)) (dbs' : Dbs) (accepted rest : List Block) :
    Prop where
  blocks : blocks = accepted ++ rest
  all : outcome = none → rest = []
  stopped : ∀ hash err, outcome = some (hash, err) →
    ∃ rejected later, rest = rejected :: later ∧ C.blockHash rejected.header = hash
  tip : dbs'.currentChainTip = (hashesOf C accepted).getLast?.or dbs.currentChainTip

theorem handleBlockBatch_chainIndex (hhashes : HonestHashes C headers)
    (hheights : BlockHeights C headers heightOf) (hblocks : ∀ block ∈ blocks, block.header ∈ headers)
    (h : ChainIndex C headers heightOf s.dbs) :
    wp (handler.handleBlockBatch C blocks)
      (fun outcome t => ChainIndex C headers heightOf t.dbs ∧
        ∃ accepted rest, EndsOn C blocks s.dbs outcome t.dbs accepted rest)
      (fun _ _ => True) s := by
  induction blocks generalizing s with
  | nil => exact ⟨h, [], [], rfl, fun _ => rfl, fun _ _ hnone => (by cases hnone), rfl⟩
  | cons block blocks ih =>
      have hblock := hblocks block List.mem_cons_self
      refine Program.wp_iff.mpr ⟨fun outcome t hrun => ?_, fun _ _ _ => trivial⟩
      rcases hconnect : handler.connectBlock C block s with ⟨result, u⟩
      cases result with
      | ok event =>
          rw [BlockHandler.handleBlockBatch_accept hconnect] at hrun
          obtain ⟨hindex, htip⟩ := connectBlock_chainIndex hhashes hheights hblock h hconnect
          have hsent : ChainIndex C headers heightOf (u.send event).dbs := hindex
          obtain ⟨hindex', accepted, rest, hends⟩ :=
            (ih (fun b hb => hblocks b (List.mem_cons_of_mem _ hb)) hsent).ok hrun
          refine ⟨hindex', block :: accepted, rest, by rw [hends.blocks]; rfl, hends.all, hends.stopped, ?_⟩
          have hlast : (hashesOf C (block :: accepted)).getLast? =
              some ((hashesOf C accepted).getLast?.getD (C.blockHash block.header)) :=
            List.getLast?_cons
          have htip' : (u.send event).dbs.currentChainTip = some (C.blockHash block.header) := htip
          rw [hends.tip, htip', hlast]
          cases (hashesOf C accepted).getLast? <;> rfl
      | error err =>
          cases hfatal : err.isFatal with
          | true =>
              rw [BlockHandler.handleBlockBatch_fatal hconnect hfatal] at hrun
              cases hrun
          | false =>
              rw [BlockHandler.handleBlockBatch_reject hconnect hfatal] at hrun
              cases hrun
              have hdbs := connectBlock_rejected hconnect hfatal
              have hends : EndsOn C (block :: blocks) s.dbs (some (C.blockHash block.header, err)) t.dbs
                  [] (block :: blocks) := by
                refine ⟨rfl, fun hne => (by cases hne), fun hash e heq => ?_, by rw [hdbs]; rfl⟩
                cases heq
                exact ⟨block, blocks, rfl, rfl⟩
              exact ⟨hdbs ▸ h, [], block :: blocks, hends⟩

theorem connectBatch_chainIndex (hhashes : HonestHashes C headers)
    (hheights : BlockHeights C headers heightOf) (hblocks : ∀ block ∈ blocks, block.header ∈ headers)
    (h : ChainIndex C headers heightOf s.dbs) :
    wp (handler.connectBatch C blocks)
      (fun outcome t => ChainIndex C headers heightOf t.dbs ∧
        ∃ accepted rest, EndsOn C blocks s.dbs outcome t.dbs accepted rest)
      (fun _ t => ChainIndex C headers heightOf t.dbs) s := by
  have hstart : ChainIndex C headers heightOf s.next.begin.dbs := h
  refine wp_transaction (fun _ => h) ?_
  rw [Program.wp_bind]
  refine (handleBlockBatch_chainIndex hhashes hheights hblocks hstart).mono ?_ fun _ _ _ => h
  rintro outcome t ht
  simp only [commit, Program.wp_bind, wp_access, Program.wp_pure]
  exact ⟨fun _ => h, fun _ => ht⟩

/-! ## Disconnecting -/

theorem disconnectBlock_chainIndex {blockHash : BlockHash} (h : ChainIndex C headers heightOf s.dbs) :
    wp (BlockHandler.disconnectBlock C blockHash) (fun _ t => ChainIndex C headers heightOf t.dbs)
      (fun _ _ => True) s := by
  refine disconnectBlock_wp.mono ?_ fun _ _ _ => trivial
  rintro - t (⟨-, -, hdbs⟩ | ⟨diff, header, u, hdisconnects, -, rfl⟩)
  · exact hdbs ▸ h
  · exact h.disconnect hdisconnects

theorem disconnectDownTo_chainIndex {target current : BlockHash} {fuel : Nat}
    (h : ChainIndex C headers heightOf s.dbs) :
    wp (BlockHandler.disconnectDownTo C target fuel current)
      (fun _ t => ChainIndex C headers heightOf t.dbs) (fun _ _ => True) s := by
  induction fuel generalizing s current with
  | zero =>
      rw [BlockHandler.disconnectDownTo]
      exact Program.wp_ite.mpr ⟨fun _ => h, fun _ => trivial⟩
  | succ fuel ih =>
      rw [BlockHandler.disconnectDownTo]
      refine Program.wp_ite.mpr ⟨fun _ => h, fun _ => ?_⟩
      rw [Program.wp_bind, Program.wp_mapError]
      refine (disconnectBlock_chainIndex h).mono ?_ fun _ _ _ => trivial
      rintro - t ht
      rw [Program.wp_bind, wp_read]
      have hnext : ChainIndex C headers heightOf t.next.dbs := ht
      exact ⟨fun _ => trivial, fun _ => ih hnext⟩

theorem disconnectStale_chainIndex {mainTip : BlockHash} (h : ChainIndex C headers heightOf s.dbs) :
    wp (transaction (BlockHandler.disconnectStale C mainTip))
      (fun _ t => ChainIndex C headers heightOf t.dbs) (fun _ t => ChainIndex C headers heightOf t.dbs)
      s := by
  refine wp_transaction (fun _ => h) ?_
  have hstart : ChainIndex C headers heightOf s.next.begin.dbs := h
  have hbody : wp (BlockHandler.disconnectStale C mainTip)
      (fun _ t => ChainIndex C headers heightOf t.dbs) (fun _ _ => True) s.next.begin := by
    unfold BlockHandler.disconnectStale
    rw [Program.wp_bind, wp_read]
    refine ⟨fun _ => trivial, fun _ => ?_⟩
    rw [Program.wp_bind, Program.wp_mapError, lastCommonAncestor, Program.wp_bind, wp_read]
    refine ⟨fun _ => trivial, fun _ => ?_⟩
    rw [Program.wp_ofExcept]
    refine ⟨fun ancestor _ => Program.wp_ite.mpr ⟨fun _ => hstart, fun _ => ?_⟩, fun _ _ => trivial⟩
    rw [Program.wp_bind, Program.wp_get, Program.wp_bind]
    have hread : ChainIndex C headers heightOf s.next.begin.next.next.dbs := h
    refine (disconnectDownTo_chainIndex hread).mono ?_ fun _ _ _ => trivial
    intro current u hu
    simp only [commit, Program.wp_bind, wp_access, Program.wp_pure]
    exact ⟨fun _ => trivial, fun _ => hu⟩
  exact hbody.mono (fun _ _ ht => ht) fun _ _ _ => h

theorem validator_disconnectBlock_chainIndex {blockHash : BlockHash}
    (h : ChainIndex C headers heightOf s.dbs) :
    wp (Validator.disconnectBlock C blockHash) (fun _ t => ChainIndex C headers heightOf t.dbs)
      (fun _ t => ChainIndex C headers heightOf t.dbs) s := by
  have hstart : ChainIndex C headers heightOf s.next.begin.dbs := h
  refine wp_transaction (fun _ => h) ?_
  rw [Program.wp_bind]
  refine (disconnectBlock_chainIndex hstart).mono ?_ fun _ _ _ => h
  rintro - t ht
  exact wp_access.mpr ⟨fun _ => h, fun _ => ht⟩

/-! ## Runs -/

/-- Runs of header syncs, live connects and disconnects, and of the two steps of a catch-up, whether they
succeed or not. -/
inductive IndexRun (C : Crypto) (headers : Set Header) (heightOf : BlockHash → Nat) : Store → Prop where
  | start {faults : Nat → Bool → Bool} : IndexRun C headers heightOf ⟨.empty, [], none, faults, []⟩
  | syncHeaders {s t : Store} {source : HeaderSource} {mainTip : BlockHash}
      {outcome : Except SyncError Unit} (start : IndexRun C headers heightOf s)
      (honest : HonestHeaders C headers heightOf source)
      (run : Validator.syncHeaders source C mainTip s = (outcome, t)) : IndexRun C headers heightOf t
  | connect {s t : Store} {validator : Validator} {block : Block}
      {outcome : Except ConnectBlockError Validator.ConnectBlockAction}
      (start : IndexRun C headers heightOf s) (known : block.header ∈ headers)
      (run : validator.connectBlock C block s = (outcome, t)) : IndexRun C headers heightOf t
  | disconnect {s t : Store} {blockHash : BlockHash} {outcome : Except DisconnectBlockError Unit}
      (start : IndexRun C headers heightOf s)
      (run : Validator.disconnectBlock C blockHash s = (outcome, t)) : IndexRun C headers heightOf t
  | rewind {s t : Store} {mainTip : BlockHash} {outcome : Except SyncError BlockHash}
      (start : IndexRun C headers heightOf s)
      (run : transaction (BlockHandler.disconnectStale C mainTip) s = (outcome, t)) :
      IndexRun C headers heightOf t
  | batch {s t : Store} {handler : BlockHandler} {blocks : List Block}
      {outcome : Except SyncError (Option (BlockHash × ConnectBlockError))}
      (start : IndexRun C headers heightOf s) (known : ∀ block ∈ blocks, block.header ∈ headers)
      (run : handler.connectBatch C blocks s = (outcome, t)) : IndexRun C headers heightOf t

theorem IndexRun.chainIndex (hhashes : HonestHashes C headers)
    (hheights : BlockHeights C headers heightOf) (h : IndexRun C headers heightOf s) :
    ChainIndex C headers heightOf s.dbs := by
  have hkept : ∀ {ε α : Type} {x : Db ε α} {post : α → Store → Prop} {s : Store},
      wp x (fun a t => ChainIndex C headers heightOf t.dbs ∧ post a t)
        (fun _ t => ChainIndex C headers heightOf t.dbs) s →
      wp x (fun _ t => ChainIndex C headers heightOf t.dbs)
        (fun _ t => ChainIndex C headers heightOf t.dbs) s :=
    fun hwp => hwp.mono (fun _ _ ht => ht.1) fun _ _ ht => ht
  induction h with
  | start => exact .empty
  | syncHeaders _ honest run ih => exact (syncHeaders_chainIndex hhashes hheights honest ih).either run
  | connect _ known run ih =>
      exact (hkept (validator_connectBlock_chainIndex hhashes hheights known ih)).either run
  | disconnect _ run ih => exact (validator_disconnectBlock_chainIndex ih).either run
  | rewind _ run ih => exact (disconnectStale_chainIndex ih).either run
  | batch _ known run ih => exact (hkept (connectBatch_chainIndex hhashes hheights known ih)).either run

/-- All that the index holds of a block of the active chain. -/
structure IndexedBlock (C : Crypto) (dbs : Dbs) (blockHash : BlockHash) (header : Header)
    (height work : Nat) : Prop where
  hasHeader : dbs.header.lookup blockHash = some header
  hasHeight : dbs.height.lookup blockHash = some height
  hasDiff : (dbs.diff.lookup blockHash).isSome
  hasCoinbase : (dbs.coinbaseTxid.lookup blockHash).isSome
  hasWork : dbs.cumulativeWork.lookup blockHash = some work
  first : header.prevBlockhash = .allZeros → height = 0 ∧ work = C.work header
  next : header.prevBlockhash ≠ .allZeros → ∃ parentHeight parentWork,
    dbs.height.lookup header.prevBlockhash = some parentHeight ∧
    dbs.cumulativeWork.lookup header.prevBlockhash = some parentWork ∧
    height = parentHeight + 1 ∧ work = parentWork + C.work header

theorem ChainIndex.onChain (h : ChainIndex C headers heightOf dbs)
    (hheights : BlockHeights C headers heightOf) {blockHash : BlockHash}
    (hchain : OnChain dbs blockHash) :
    ∃ header height work, IndexedBlock C dbs blockHash header height work := by
  have hdiff : (dbs.diff.lookup blockHash).isSome := by
    induction hchain with
    | tip htip => exact h.tip _ htip
    | parent _ hlookup hzero ih =>
        obtain ⟨header, work, hrecord⟩ := h.record _ ih
        obtain rfl := Option.some.inj (hrecord.hasHeader.symm.trans hlookup)
        exact hrecord.parent hzero
  have hheight : ∀ {hash}, (dbs.diff.lookup hash).isSome → dbs.height.lookup hash = some (heightOf hash) := by
    intro hash hrecorded
    obtain ⟨header, work, hrecord⟩ := h.record hash hrecorded
    rw [h.height, hrecord.hasHeader]
    rfl
  obtain ⟨header, work, hrecord⟩ := h.record blockHash hdiff
  obtain ⟨hmem, rfl⟩ := h.keyed _ _ hrecord.hasHeader
  refine ⟨header, _, work, hrecord.hasHeader, hheight hdiff, hdiff, hrecord.hasCoinbase, hrecord.hasWork,
    fun hzero => ⟨hheights.first header hmem hzero, ?_⟩, fun hzero => ?_⟩
  · have hwork := hrecord.chainWork
    rw [chainWorkOf, if_pos hzero] at hwork
    exact (Option.some.inj hwork).symm
  · have hwork := hrecord.chainWork
    rw [chainWorkOf, if_neg hzero] at hwork
    obtain ⟨parentWork, hparent, hsum⟩ := Option.map_eq_some_iff.mp hwork
    exact ⟨_, parentWork, hheight (hrecord.parent hzero), hparent, hheights.next header hmem hzero, hsum.symm⟩

/-- The invariants of the index, and that an accepted block is the tip. -/
structure IndexHolds (C : Crypto) (headers : Set Header) (s : Store) : Prop where
  chain : ∀ blockHash, OnChain s.dbs blockHash →
    ∃ header height work, IndexedBlock C s.dbs blockHash header height work
  parents : ∀ blockHash header, s.dbs.header.lookup blockHash = some header →
    header.prevBlockhash = .allZeros ∨ (s.dbs.header.lookup header.prevBlockhash).isSome
  live : ∀ (validator : Validator) (block : Block) (t : Store), block.header ∈ headers →
    validator.connectBlock C block s = (.ok .accept, t) →
    t.dbs.currentChainTip = some (C.blockHash block.header)
  batch : ∀ (handler : BlockHandler) (blocks : List Block)
    (outcome : Option (BlockHash × ConnectBlockError)) (t : Store),
    (∀ block ∈ blocks, block.header ∈ headers) → handler.connectBatch C blocks s = (.ok outcome, t) →
    ∃ accepted rest, EndsOn C blocks s.dbs outcome t.dbs accepted rest

/-- In every database that a run reaches, the index holds; the sums of its works are those of the code
where the work of each chain is below `2 ^ 256`, as `Crypto.work` assumes. -/
theorem indexRun_holds (hhashes : HonestHashes C headers) (hheights : BlockHeights C headers heightOf)
    (h : IndexRun C headers heightOf s) : IndexHolds C headers s := by
  have hindex := h.chainIndex hhashes hheights
  constructor
  · exact fun blockHash hchain => hindex.onChain hheights hchain
  · intro blockHash header hlookup
    by_cases hzero : header.prevBlockhash = .allZeros
    · exact .inl hzero
    · exact .inr (hindex.parent _ _ hlookup hzero)
  · intro validator block t hblock hrun
    exact ((validator_connectBlock_chainIndex hhashes hheights hblock hindex).ok hrun).2 rfl
  · intro handler blocks outcome t hblocks hrun
    exact ((connectBatch_chainIndex hhashes hheights hblocks hindex).ok hrun).2

/-! The headers of two blocks are fetched, and the first block is connected. -/

def sampleHeightOf (blockHash : BlockHash) : Nat := if blockHash = childHash then 1 else 0

def sampleSource : HeaderSource where
  getblockheader _ := .ok 1
  getblockhash _ height :=
    if height = 0 then .ok genesisHash
    else if height = 1 then .ok childHash
    else .error (.jsonRpc "getblockhash")
  getBlockHeaders := [fun hash _ =>
    if hash = genesisHash then
      .ok [⟨genesis.header, genesisHash, 0⟩, ⟨child.header, childHash, 1⟩]
    else .ok []]

theorem sampleHeights : BlockHeights .sample sampleHeaders sampleHeightOf where
  first := by
    rintro header (rfl | rfl)
    · decide
    · decide
  next := by
    rintro header (rfl | rfl)
    · decide
    · decide

theorem sampleSource_honest : HonestHeaders .sample sampleHeaders sampleHeightOf sampleSource where
  blockHash := by
    intro n height hash h
    simp only [sampleSource] at h
    split_ifs at h with hzero hone
    · obtain rfl := Except.ok.inj h
      rw [hzero]
      decide
    · obtain rfl := Except.ok.inj h
      rw [hone]
      decide
  answers := by
    intro answer hanswer hash count first rest h
    obtain rfl := List.mem_singleton.mp hanswer
    beta_reduce at h
    split_ifs at h with hgenesis
    · obtain ⟨rfl, rfl⟩ := List.cons_eq_cons.mp (Except.ok.inj h)
      refine ⟨hgenesis.symm, ⟨.inl rfl, rfl, by decide⟩, ⟨.inr rfl, rfl, by decide⟩, ?_, trivial⟩
      rw [hgenesis]
      decide
    · cases h

def syncedStore : Store := (syncHeaders sampleSource .sample childHash (freshStore .empty)).2

def indexedStore : Store := (sampleHandler.connectBatch .sample [genesis] syncedStore).2

theorem indexedStore_run : IndexRun .sample sampleHeaders sampleHeightOf indexedStore := by
  have hsync : syncHeaders sampleSource .sample childHash (freshStore .empty) = (.ok (), syncedStore) := by
    unfold syncedStore
    exact Program.eq_of_fst (by decide)
  have hbatch : sampleHandler.connectBatch .sample [genesis] syncedStore = (.ok none, indexedStore) := by
    unfold indexedStore
    exact Program.eq_of_fst (by decide)
  have hstart : IndexRun .sample sampleHeaders sampleHeightOf (freshStore .empty) := .start
  refine .batch (.syncHeaders hstart sampleSource_honest hsync) ?_ hbatch
  simp [sampleHeaders]

theorem indexedStore_holds :
    indexedStore.dbs.currentChainTip = some genesisHash ∧ IndexHolds .sample sampleHeaders indexedStore :=
  ⟨by decide, indexRun_holds sampleHeaders_honest sampleHeights indexedStore_run⟩

end Bip360Enforcer.Validator
