import Bip360Enforcer.BlockProducer.Lemmas.Generate

/-!
# Mined blocks obey the rules of the network and extend the chain
-/

namespace Bip360Enforcer.Mining

open Program (wp)
open Validator (BlockHeights Dbs HonestHashes HonestReachable ReadsOnly Spec Store hashesOf tipOf)

variable {C : Crypto} {M : Miner} {headers : Set Header} {heightOf : BlockHash → Nat}
  {validator : Validator} {node : MiningNode} {start : Dbs} {chain new : List Block} {block : Block}
  {spk : Script} {outputs : List TxOut} {txs : List Transaction} {st : MineState} {header : Header}
  {e : GenerateBlockError}

/-! ## Assembled blocks -/

/-- In every database that a run reaches, whatever the transactions, the outputs and the clock are. -/
theorem finalizeBlock_obeysRules (hsize : HashSize C) (hhashes : HonestHashes C headers)
    (hheights : BlockHeights C headers heightOf) {s : Store}
    (h : HonestReachable C headers heightOf s.dbs chain) (hheight : chain.length < 2 ^ 32)
    (hvalues : outputsValue outputs = 0) (now : Option Nat) :
    (∀ block t, finalizeBlock C M now spk outputs txs s = (.ok block, t) →
      t.dbs = s.dbs ∧ Assembled C M chain txs block) ∧
    ∀ e t, finalizeBlock C M now spk outputs txs s = (.error e, t) →
      NotAssembled chain now e ∨ e = .getMainchainTip .io ∨ e = .getHeaderInfo (.db .io) := by
  have hspec : Spec (finalizeBlock C M now spk outputs txs) s.dbs
      (fun block d => d = s.dbs ∧ Assembled C M chain txs block)
      (fun e d => d = s.dbs ∧ NotAssembled chain now e)
      fun e => e = .getMainchainTip .io ∨ e = .getHeaderInfo (.db .io) :=
    finalizeBlock_spec hsize hhashes hheights h hheight hvalues now
  refine ⟨fun block t hrun => (hspec.ok hrun).2, fun e t hrun => ?_⟩
  exact (hspec.error hrun).2.imp And.right And.right

/-! A block on top of a first one. -/

def firstBlock : Block := ⟨Validator.sampleHeader .allZeros 0, [Validator.sampleCoinbase 5 []]⟩

def firstHash : BlockHash := Crypto.sample.blockHash firstBlock.header

/-- Every odd nonce fits. -/
def sampleMiner : Miner where
  computeWtxid := Crypto.sample.computeTxid
  validatePow header := header.nonce.toNat % 2 = 1
  deserialize _ := none

def firstStored : Store :=
  ((Validator.putHeaders .sample [(firstBlock.header, 0)] : Validator.Db Validator.DbError Unit)
    (Validator.freshStore .empty)).2

def firstStore : Store := (Validator.sampleHandler.connectBlock .sample firstBlock firstStored).2

def payoutSpk : Script := [0x51]

def assembledBlock : Block :=
  (finalizeBlock .sample sampleMiner (some 7) payoutSpk [] [] firstStore).1.toOption.getD firstBlock

def minedBlock : Block := { assembledBlock with header := { assembledBlock.header with nonce := 1 } }

def minedHash : BlockHash := Crypto.sample.blockHash minedBlock.header

def minedHeaders : Set Header := {firstBlock.header, minedBlock.header}

def minedHeightOf (blockHash : BlockHash) : Nat := if blockHash = minedHash then 1 else 0

theorem sample_hashSize : HashSize .sample := by
  intro data
  change ((data ++ List.replicate 32 0).take 32).length = 32
  rw [List.length_take, List.length_append, List.length_replicate]
  omega

/-- What the two blocks come to when the definitions are run on them. -/
theorem minedBlocks_sample :
    (HonestHashes .sample minedHeaders ∧ BlockHeights .sample minedHeaders minedHeightOf) ∧
    Pqc.CoreChain .sample [minedBlock, firstBlock] ∧
    HonestReachable .sample minedHeaders minedHeightOf firstStore.dbs [firstBlock] ∧
    (finalizeBlock .sample sampleMiner (some 7) payoutSpk [] [] firstStore).1 = .ok assembledBlock ∧
    firstStore.dbs.coinbaseTxid.lookup minedHash = none ∧ minedBlock.header.prevBlockhash ≠ minedHash := by
  have hcore : Pqc.CoreChain .sample [minedBlock, firstBlock] :=
    ⟨by decide, by decide, by decide⟩
  refine ⟨⟨⟨?_, ?_⟩, ⟨?_, ?_⟩⟩, hcore, ?_, by decide, by decide, by decide⟩
  · have h : ∀ a ∈ [firstBlock.header, minedBlock.header], ∀ b ∈ [firstBlock.header, minedBlock.header],
        Crypto.sample.blockHash a = Crypto.sample.blockHash b → a = b := by decide
    intro a ha b hb
    exact h a (by simpa [minedHeaders] using ha) b (by simpa [minedHeaders] using hb)
  · rintro header (rfl | rfl)
    · decide
    · decide
  · rintro header (rfl | rfl)
    · decide
    · decide
  · rintro header (rfl | rfl)
    · decide
    · decide
  · have hheaders : (Validator.putHeaders .sample [(firstBlock.header, 0)] :
        Validator.Db Validator.DbError Unit) (Validator.freshStore .empty) = (.ok (), firstStored) := by
      unfold firstStored
      exact Program.eq_of_fst (by decide)
    have hfirst : (⟨firstBlock.header, firstHash, 0⟩ : Validator.RestHeader).Honest .sample minedHeaders
        minedHeightOf := ⟨.inl rfl, rfl, by decide⟩
    have hstored : HonestReachable .sample minedHeaders minedHeightOf firstStored.dbs [] :=
      @HonestReachable.putHeaders _ _ _ _ _ (Validator.freshStore .empty) _ _ _ [] .empty
        (fun hzero => absurd rfl hzero) hfirst trivial hheaders
    have hsome : (Validator.sampleHandler.connectBlock .sample firstBlock firstStored).1.toOption.isSome := by
      decide
    cases hrun : (Validator.sampleHandler.connectBlock .sample firstBlock firstStored).1 with
    | ok event =>
        exact .connect hstored (.inl rfl) hcore.tail (fun _ _ hlookup => by cases hlookup)
          (Program.eq_of_fst hrun)
    | error e =>
        rw [hrun] at hsome
        cases hsome

theorem assembledBlock_obeysRules :
    (finalizeBlock .sample sampleMiner (some 7) payoutSpk [] [] firstStore).1 = .ok assembledBlock ∧
      Assembled .sample sampleMiner [firstBlock] [] assembledBlock := by
  obtain ⟨⟨hhashes, hheights⟩, -, hreachable, hrun, -⟩ := minedBlocks_sample
  obtain ⟨hok, -⟩ := @finalizeBlock_obeysRules .sample sampleMiner minedHeaders minedHeightOf [firstBlock]
    payoutSpk [] [] sample_hashSize hhashes hheights firstStore hreachable (by decide) rfl (some 7)
  exact ⟨hrun, (hok _ _ (Program.eq_of_fst hrun)).2⟩

/-! ## Proof of work -/

theorem searchNonce_some {fuel : Nat} {found : Header} (h : searchNonce M.validatePow fuel header = some found) :
    M.validatePow found = true ∧ ∃ nonce, found = { header with nonce := nonce } := by
  induction fuel generalizing header with
  | zero => cases h
  | succ fuel ih =>
      simp only [searchNonce] at h
      split at h
      · rename_i hpow
        cases h
        exact ⟨hpow, _, rfl⟩
      · obtain ⟨hpow, nonce, rfl⟩ := ih h
        exact ⟨hpow, nonce, rfl⟩

theorem searchNonce_none {fuel : Nat} (h : searchNonce M.validatePow fuel header = none) {k : Nat} (hk : k < fuel) :
    M.validatePow { header with nonce := header.nonce + 1 + UInt32.ofNat k } = false := by
  induction fuel generalizing header k with
  | zero => cases hk
  | succ fuel ih =>
      simp only [searchNonce] at h
      split at h
      · cases h
      · rename_i hpow
        cases k with
        | zero => simpa using hpow
        | succ k =>
            have hrest := ih h (Nat.lt_of_succ_lt_succ hk)
            have hnonce : header.nonce + 1 + 1 + UInt32.ofNat k = header.nonce + 1 + UInt32.ofNat (k + 1) := by
              rw [UInt32.ofNat_add, UInt32.add_assoc (header.nonce + 1), UInt32.add_comm 1]
              rfl
            rwa [← hnonce]

/-- As many steps as there are nonces try all of them. -/
theorem searchNonce_all (h : searchNonce M.validatePow (2 ^ 32) header = none) (nonce : UInt32) :
    M.validatePow { header with nonce := nonce } = false := by
  have hk := (nonce - (header.nonce + 1)).toNat_lt
  have htried := searchNonce_none h hk
  have hnonce : header.nonce + 1 + UInt32.ofNat (nonce - (header.nonce + 1)).toNat = nonce := by
    rw [UInt32.ofNat_toNat, UInt32.add_comm, UInt32.sub_add_cancel]
  rwa [hnonce] at htried

/-! ## One block -/

theorem readsOnly_finalizeBlock (now : Option Nat) :
    ReadsOnly (finalizeBlock C M now spk outputs txs) := by
  apply ReadsOnly.bind
  · exact (ReadsOnly.access.bind fun _ => (ReadsOnly.read _).require).mapError
  · intro tip
    apply ReadsOnly.bind
    · exact (ReadsOnly.access.bind fun _ => Validator.readsOnly_getHeaderInfo tip).mapError
    · intro info
      cases now with
      | none => exact .fail _
      | some now =>
          obtain ⟨root, hroot⟩ := exists_witnessRoot C M txs
          obtain ⟨merkle, hmerkle⟩ :=
            exists_merkleRoot C (addCommitment C root (finalizeCoinbase info.height spk outputs)) txs
          simp only [hroot, hmerkle]
          exact .pure _

theorem Assembled.mined (h : Assembled C M chain txs block) {found : Header}
    (hfound : searchNonce M.validatePow (2 ^ 32) block.header = some found) {n : Nat} {template : BlockTemplate}
    (htemplate : node.getBlockTemplate n = some template) (htip : template.prevBlockhash = tipOf C chain)
    (hdecoded : decodeTransactions M template.transactions = .ok txs) :
    Mined C M node chain { block with header := found } := by
  obtain ⟨hpow, nonce, rfl⟩ := searchNonce_some hfound
  exact ⟨⟨h.rules.parent, h.rules.version, h.rules.bits, h.rules.merkleRoot, h.rules.witnesses,
    h.rules.coinbase⟩, h.later, hpow, n, template, htemplate, htip, h.transactions ▸ hdecoded⟩

theorem decodeTransactions_error {txs : List TemplateTransaction}
    (h : decodeTransactions M txs = .error e) : ∃ txid, e = .decodeTemplateTransaction txid := by
  induction txs with
  | nil => cases h
  | cons tx txs ih =>
      rw [decodeTransactions] at h
      cases hdecode : M.deserialize tx.data with
      | none =>
          rw [hdecode] at h
          cases h
          exact ⟨_, rfl⟩
      | some transaction =>
          rw [hdecode] at h
          cases hrest : decodeTransactions M txs with
          | error e' =>
              rw [hrest] at h
              cases h
              exact ih hrest
          | ok rest =>
              rw [hrest] at h
              cases h

theorem Idle.stopped (h : Idle C M headers heightOf node start chain new st) :
    Stopped C M headers heightOf node start chain (new.length + 1) st := ⟨new, Nat.le_succ _, h.1⟩

theorem Idle.same {t : MineState} (h : Idle C M headers heightOf node start chain new st)
    (hdbs : t.store.dbs = st.store.dbs) (hsubmitted : t.submitted = st.submitted) :
    Idle C M headers heightOf node start chain new t := ⟨hdbs ▸ h.1, hsubmitted.trans h.2⟩

/-- The transactions are those of a template that names the tip. -/
theorem selectBlockTxs_wp (h : Idle C M headers heightOf node start chain new st) (tip : BlockHash) :
    wp (selectBlockTxs C M validator node tip)
      (fun txs t => Idle C M headers heightOf node start chain new t ∧ ∃ n template,
        node.getBlockTemplate n = some template ∧ template.prevBlockhash = tip ∧
          decodeTransactions M template.transactions = .ok txs)
      (fun e t => Stopped C M headers heightOf node start chain (new.length + 1) t ∧ Explained C M e) st := by
  rw [selectBlockTxs, Program.wp_bind, Program.wp_get, Program.wp_bind]
  refine (wait_idle h).mono ?_ fun _ _ hfalse => hfalse.elim
  intro _ t ht
  cases htemplate : node.getBlockTemplate st.calls with
  | none => exact ⟨ht.stopped, .of_ne (by rintro ⟨⟩) (by rintro ⟨⟩)⟩
  | some template =>
      refine Program.wp_ite.mpr ⟨fun _ => ⟨ht.stopped, .of_ne (by rintro ⟨⟩) (by rintro ⟨⟩)⟩, fun htip => ?_⟩
      rw [ne_eq, not_not] at htip
      rw [Program.wp_ofExcept]
      refine ⟨fun txs htxs => ⟨ht, _, template, htemplate, htip, htxs⟩, fun e he => ⟨ht.stopped, ?_⟩⟩
      obtain ⟨txid, rfl⟩ := decodeTransactions_error he
      exact .of_ne (by rintro ⟨⟩) (by rintro ⟨⟩)

theorem submitBlock_wp (hhashes : HonestHashes C headers) (hheights : BlockHeights C headers heightOf)
    (hnode : AcceptsValid C headers heightOf validator node start chain)
    (hmined : Mined C M node (new ++ chain) block)
    (h : Idle C M headers heightOf node start chain new st) :
    wp (submitBlock C validator node block)
      (fun _ t => node.Accepts block ∧ Settling C M headers heightOf node start chain new block t)
      (fun e t => Stopped C M headers heightOf node start chain (new.length + 1) t ∧ Explained C M e) st := by
  rw [submitBlock, Program.wp_bind, Program.wp_get]
  cases hanswer : node.submitBlock st.calls block with
  | none =>
      rw [Program.wp_bind]
      refine (wait_idle h).mono ?_ fun _ _ hfalse => hfalse.elim
      exact fun _ t ht => ⟨ht.stopped, .of_ne (by rintro ⟨⟩) (by rintro ⟨⟩)⟩
  | some answer =>
      cases answer with
      | some reason =>
          simp only [Program.wp_bind]
          refine (wait_idle h).mono ?_ fun _ _ hfalse => hfalse.elim
          exact fun _ t ht => ⟨ht.stopped, .of_ne (by rintro ⟨⟩) (by rintro ⟨⟩)⟩
      | none =>
          have hblock : node.Accepts block := ⟨st.calls, hanswer⟩
          simp only [Program.wp_bind, Program.wp_modify]
          refine (wait_settling hhashes hheights hnode hblock hmined ?_).mono
            (fun _ _ ht => ⟨hblock, ht⟩) fun _ _ hfalse => hfalse.elim
          exact .waits h.1 (congrArg (· ++ [block]) h.2)

theorem mine_wp (hsize : HashSize C) (hhashes : HonestHashes C headers)
    (hheights : BlockHeights C headers heightOf)
    (hnode : AcceptsValid C headers heightOf validator node start chain)
    (hheight : (new ++ chain).length < 2 ^ 32) {n : Nat} {template : BlockTemplate}
    (htemplate : node.getBlockTemplate n = some template)
    (htip : template.prevBlockhash = tipOf C (new ++ chain))
    (hdecoded : decodeTransactions M template.transactions = .ok txs)
    (h : Idle C M headers heightOf node start chain new st) :
    wp (mine C M validator node spk [] txs)
      (fun blockHash t => ∃ block, blockHash = C.blockHash block.header ∧
        Idle C M headers heightOf node start chain (block :: new) t)
      (fun e t => Stopped C M headers heightOf node start chain (new.length + 1) t ∧ Explained C M e) st := by
  rw [mine, Program.wp_bind, Program.wp_get, Program.wp_bind]
  refine (onStore_wp (readsOnly_finalizeBlock _)
    (finalizeBlock_spec hsize hhashes hheights h.1.reachable hheight rfl _)).mono ?_ ?_
  · rintro block t ⟨hdbs, hsubmitted, -, hassembled⟩
    have ht := h.same hdbs hsubmitted
    cases hsearch : searchNonce M.validatePow (2 ^ 32) block.header with
    | none =>
        refine ⟨ht.stopped, by rintro ⟨⟩, fun _ => ⟨_, _, block, hassembled, ?_⟩⟩
        exact searchNonce_all hsearch
    | some found =>
        have hmined := hassembled.mined hsearch htemplate htip hdecoded
        rw [Program.wp_bind]
        refine (submitBlock_wp hhashes hheights hnode hmined ht).mono ?_ fun _ _ hfailed => hfailed
        rintro - u ⟨hblock, hu⟩
        rw [Program.wp_bind, Program.wp_get, Program.wp_bind]
        refine (awaitBlockConnection_wp hhashes hheights hnode hblock hmined hu).mono ?_
          fun _ _ hfailed => hfailed
        exact fun _ v hv => ⟨_, rfl, hv⟩
  · rintro e t ⟨hdbs, hsubmitted, e', rfl, hreason⟩
    refine ⟨(h.same hdbs hsubmitted).stopped, ?_⟩
    rcases hreason with ⟨-, ⟨-, rfl⟩ | ⟨-, rfl⟩⟩ | rfl | rfl
    · exact .of_ne (by rintro ⟨⟩) (by rintro ⟨⟩)
    · exact .of_ne (by rintro ⟨⟩) (by rintro ⟨⟩)
    · exact .of_ne (by rintro ⟨⟩) (by rintro ⟨⟩)
    · exact .of_ne (by rintro ⟨⟩) (by rintro ⟨⟩)

theorem generateBlock_wp (hsize : HashSize C) (hhashes : HonestHashes C headers)
    (hheights : BlockHeights C headers heightOf)
    (hnode : AcceptsValid C headers heightOf validator node start chain)
    (hnetwork : node.network ≠ .signet) (hheight : (new ++ chain).length < 2 ^ 32)
    (h : Idle C M headers heightOf node start chain new st) :
    wp (generateBlock C M validator node spk)
      (fun blockHash t => ∃ block, blockHash = C.blockHash block.header ∧
        Idle C M headers heightOf node start chain (block :: new) t)
      (fun e t => Stopped C M headers heightOf node start chain (new.length + 1) t ∧ Explained C M e) st := by
  have hspec : Spec (do Validator.access; Validator.read Dbs.currentChainTip) st.store.dbs
      (fun tip _ => tip = st.store.dbs.currentChainTip) (fun _ _ => True)
      fun _ : Validator.DbError => True :=
    Spec.bind (Spec.access trivial (Spec.read trivial rfl))
  have hreads : ReadsOnly (do Validator.access; Validator.read Dbs.currentChainTip :
      Validator.Db Validator.DbError (Option BlockHash)) := ReadsOnly.access.bind fun _ => .read _
  rw [generateBlock, if_neg hnetwork, Program.wp_bind]
  refine (onStore_wp hreads hspec).mono ?_ ?_
  · rintro tip t ⟨hdbs, hsubmitted, rfl⟩
    have ht := h.same hdbs hsubmitted
    cases htip : st.store.dbs.currentChainTip with
    | none => exact ⟨ht.stopped, .of_ne (by rintro ⟨⟩) (by rintro ⟨⟩)⟩
    | some tip =>
        have htip' : tip = tipOf C (new ++ chain) := by
          rw [(h.1.reachable.reachable.tracked hhashes).indexed.tip] at htip
          rw [tipOf, htip]
          rfl
        rw [Program.wp_bind]
        refine (selectBlockTxs_wp ht tip).mono ?_ fun _ _ hfailed => hfailed
        rintro txs u ⟨hu, n, template, htemplate, hprev, hdecoded⟩
        exact mine_wp hsize hhashes hheights hnode hheight htemplate (hprev.trans htip') hdecoded hu
  · rintro e t ⟨hdbs, hsubmitted, e', rfl, -⟩
    exact ⟨(h.same hdbs hsubmitted).stopped, .of_ne (by rintro ⟨⟩) (by rintro ⟨⟩)⟩

/-! ## All blocks of a request -/

theorem generateBlocks_wp (hsize : HashSize C) (hhashes : HonestHashes C headers)
    (hheights : BlockHeights C headers heightOf)
    (hnode : AcceptsValid C headers heightOf validator node start chain)
    (hnetwork : node.network ≠ .signet) {blocks : Nat}
    (hheight : (new ++ chain).length + blocks ≤ 2 ^ 32)
    (h : Idle C M headers heightOf node start chain new st) :
    wp (generateBlocks C M validator node spk blocks)
      (fun blockHashes t => ∃ more : List Block, blockHashes = (hashesOf C more).reverse ∧
        more.length = blocks ∧ Idle C M headers heightOf node start chain (more ++ new) t)
      (fun e t => Stopped C M headers heightOf node start chain (new.length + blocks) t ∧ Explained C M e)
      st := by
  induction blocks generalizing st new with
  | zero => exact ⟨[], rfl, rfl, h⟩
  | succ blocks ih =>
      rw [generateBlocks, Program.wp_bind]
      refine (generateBlock_wp hsize hhashes hheights hnode hnetwork (by omega) h).mono ?_ ?_
      · rintro blockHash t ⟨block, rfl, ht⟩
        rw [Program.wp_bind]
        refine (ih (by simp only [List.cons_append, List.length_cons]; omega) ht).mono ?_ ?_
        · rintro blockHashes u ⟨more, rfl, hlength, hu⟩
          refine ⟨more ++ [block], ?_, ?_, ?_⟩
          · simp [hashesOf]
          · rw [List.length_append, hlength, List.length_singleton]
          · rwa [List.append_assoc]
        · rintro e u ⟨⟨more, hmore, hbuilt⟩, he⟩
          refine ⟨⟨more, ?_, hbuilt⟩, he⟩
          rw [List.length_cons] at hmore
          omega
      · rintro e t ⟨⟨more, hmore, hbuilt⟩, he⟩
        exact ⟨⟨more, hmore.trans (by omega), hbuilt⟩, he⟩

/-- Until the clock of the blocks runs out, no block on top of the chain is too old if none of it is. -/
def KeepsTime (chain new : List Block) : Prop :=
  TimesAscend chain → (∀ block ∈ new ++ chain, block.header.time ≠ 0xffffffff) → TimesAscend (new ++ chain)

/-- Mined blocks are not too old, however fast they follow each other and whatever the clock says. -/
theorem keepsTime_of_mined
    (hmined : ∀ block below, block :: below <:+ new ++ chain → chain.length ≤ below.length →
      Mined C M node below block) : KeepsTime chain new := by
  intro hchain hmax
  induction new with
  | nil => exact hchain
  | cons block new ih =>
      have hbelow : TimesAscend (new ++ chain) :=
        ih (fun other below hsuffix => hmined other below (hsuffix.trans (List.suffix_cons _ _)))
          fun other hother => hmax other (List.mem_cons_of_mem _ hother)
      intro other below hsuffix
      rcases List.suffix_cons_iff.mp hsuffix with heq | hsuffix
      · obtain ⟨rfl, rfl⟩ := List.cons.inj heq
        have hself := hmined other (new ++ chain) (List.suffix_refl _) (by simp)
        change NotTooOld (new ++ chain) other
        cases hrest : new ++ chain with
        | nil =>
            intro time hmedian
            simp [medianTimePast, pastMedian] at hmedian
        | cons tip below =>
            rw [hrest] at hself hbelow
            refine .of_parent hbelow (hself.later tip rfl ?_)
            exact hmax tip (by rw [List.cons_append, hrest]; simp)
      · exact hbelow other below hsuffix

/-- A request for blocks, not on signet, while nothing else is mined. If it succeeds, the active chain has
grown by exactly these blocks, each of which was mined on the one before it; if not, by as many as were mined
until then. -/
theorem generateBlocks_extends (hsize : HashSize C) (hhashes : HonestHashes C headers)
    (hheights : BlockHeights C headers heightOf)
    (hnode : AcceptsValid C headers heightOf validator node st.store.dbs chain)
    (hnetwork : node.network ≠ .signet) (h : HonestReachable C headers heightOf st.store.dbs chain)
    (hidle : st.submitted = []) {blocks : Nat} (hheight : chain.length + blocks ≤ 2 ^ 32) :
    (∀ blockHashes t, generateBlocks C M validator node spk blocks st = (.ok blockHashes, t) →
      ∃ new, blockHashes = (hashesOf C new).reverse ∧ new.length = blocks ∧ t.submitted = [] ∧
        KeepsTime chain new ∧ Built C M headers heightOf node st.store.dbs chain new t.store.dbs) ∧
    ∀ e t, generateBlocks C M validator node spk blocks st = (.error e, t) →
      Explained C M e ∧ ∃ new, new.length ≤ blocks ∧ KeepsTime chain new ∧
        Built C M headers heightOf node st.store.dbs chain new t.store.dbs := by
  have hstart : Idle C M headers heightOf node st.store.dbs chain [] st := by
    refine ⟨⟨h, fun block hblock => absurd hblock List.not_mem_nil, fun _ hsome => .inl hsome, ?_⟩, hidle⟩
    intro block below hsuffix hlength
    have := hsuffix.length_le
    rw [List.nil_append, List.length_cons] at this
    omega
  have hwp := @generateBlocks_wp C M headers heightOf validator node st.store.dbs chain [] spk st hsize hhashes
    hheights hnode hnetwork blocks hheight hstart
  refine ⟨fun blockHashes t hrun => ?_, fun e t hrun => ?_⟩
  · obtain ⟨new, hhashesEq, hlength, hbuilt, hnone⟩ := hwp.ok hrun
    rw [List.append_nil] at hbuilt
    exact ⟨new, hhashesEq, hlength, hnone, keepsTime_of_mined hbuilt.mined, hbuilt⟩
  · obtain ⟨⟨new, hlength, hbuilt⟩, he⟩ := hwp.error hrun
    exact ⟨he, new, by simpa using hlength, keepsTime_of_mined hbuilt.mined, hbuilt⟩

/-! The block is submitted, and connected while the validator is asked for it. -/

def sampleNode : MiningNode where
  network := .regtest
  signetChallenge := none
  getBlockTemplate _ := some ⟨firstHash, []⟩
  submitBlock _ block := some (if block = minedBlock then none else some "inconclusive")
  now _ := some 7
  pastSecond _ := false
  hasSignetMiner _ := false
  runSignetMiner _ _ := ⟨[], .failed⟩
  getBestBlockHash _ := none
  connects n := if n = 2 then 1 else 0
  polls _ := 3

theorem sampleNode_accepts {block : Block} (h : sampleNode.Accepts block) : block = minedBlock := by
  obtain ⟨n, hn⟩ := h
  simp only [sampleNode, Option.some.injEq] at hn
  split at hn
  · assumption
  · cases hn

theorem sampleNode_acceptsValid : AcceptsValid .sample minedHeaders minedHeightOf Validator.sampleValidator
    sampleNode firstStore.dbs [firstBlock] where
  known := by
    intro block hblock
    obtain rfl := sampleNode_accepts hblock
    exact .inr rfl
  fresh := by
    intro block hblock
    obtain rfl := sampleNode_accepts hblock
    exact minedBlocks_sample.2.2.2.2.1
  core := by
    intro block new hblock hnew hprev
    obtain rfl := sampleNode_accepts hblock
    cases new with
    | nil => exact minedBlocks_sample.2.1
    | cons other new =>
        obtain rfl := sampleNode_accepts (hnew other List.mem_cons_self)
        exact absurd hprev minedBlocks_sample.2.2.2.2.2
  prevouts := by
    intro block new dbs _ _ op txout hlookup
    have hempty : Validator.sampleValidator.prefetchedPrevouts .sample dbs.p2mrUtxos block = ∅ := ite_self _
    rw [hempty] at hlookup
    cases hlookup

def mineState : MineState := ⟨firstStore, 0, []⟩

theorem mineState_extends :
    (generateBlocks .sample sampleMiner Validator.sampleValidator sampleNode payoutSpk 1 mineState).1 =
      .ok [minedHash] ∧
    ∃ new, [minedHash] = (hashesOf .sample new).reverse ∧ new.length = 1 := by
  have hrun : (generateBlocks .sample sampleMiner Validator.sampleValidator sampleNode payoutSpk 1
      mineState).1 = .ok [minedHash] := by decide +kernel
  obtain ⟨⟨hhashes, hheights⟩, -, hreachable, -⟩ := minedBlocks_sample
  obtain ⟨hok, -⟩ := @generateBlocks_extends .sample sampleMiner minedHeaders minedHeightOf
    Validator.sampleValidator sampleNode [firstBlock] payoutSpk mineState sample_hashSize hhashes
    hheights sampleNode_acceptsValid (by decide) hreachable rfl 1 (by decide)
  obtain ⟨new, hnew, hlength, -, -, -⟩ := hok _ _ (Program.eq_of_fst hrun)
  exact ⟨hrun, new, hnew, hlength⟩

/-! ## Signet -/

theorem tryGetBlockInfos_stored {s : Store} {blockHash : BlockHash} {n : Nat} :
    wp (Validator.tryGetBlockInfos C blockHash n)
      (fun found t => found.isSome → (t.dbs.coinbaseTxid.lookup blockHash).isSome) (fun _ _ => True) s := by
  rw [Validator.tryGetBlockInfos, Program.wp_bind, Validator.wp_access]
  refine ⟨fun _ => trivial, fun _ => ?_⟩
  rw [Program.wp_bind]
  refine (Program.wp_self _ _).mono ?_ fun _ _ _ => trivial
  intro infos t _
  cases infos with
  | none => exact fun hsome => by cases hsome
  | some infos =>
      rw [Program.wp_bind, Validator.BlockHashDbs.tryGetBlockInfo, Program.wp_bind, Validator.tryGet,
        Validator.wp_read]
      refine ⟨fun _ => trivial, fun _ => ?_⟩
      cases hlookup : t.dbs.coinbaseTxid.lookup blockHash with
      | none => exact fun hsome => by cases hsome
      | some coinbaseTxid =>
          rw [Program.wp_pure, Program.wp_bind]
          refine (Program.wp_self _ _).mono ?_ fun _ _ _ => trivial
          intro rest u hrun _
          have hdbs := Validator.readsOnly_blockInfosOf infos.tail t.next
          rw [hrun] at hdbs
          change (u.dbs.coinbaseTxid.lookup blockHash).isSome
          rw [hdbs, Validator.next_dbs, hlookup]
          rfl

theorem awaitBlockConnection_stored {blockHash : BlockHash} {polls : Nat} :
    wp (awaitBlockConnection C validator node blockHash polls)
      (fun _ t => (t.store.dbs.coinbaseTxid.lookup blockHash).isSome) (fun _ _ => True) st := by
  induction polls generalizing st with
  | zero => exact trivial
  | succ polls ih =>
      rw [awaitBlockConnection, Program.wp_bind, onStore, Program.wp_mapError, Program.wp_focus]
      refine tryGetBlockInfos_stored.mono ?_ fun _ _ _ => trivial
      intro found t hfound
      cases found with
      | some infos => exact hfound rfl
      | none =>
          rw [Program.wp_bind]
          exact (Program.wp_self _ _).mono (fun _ _ _ => ih) fun _ _ _ => trivial

/-- All that is known on signet: the hash is that of the best block of the node when the miner is done, and
the validator has connected this block at some time. -/
theorem generateSignetBlock_stored :
    wp (generateSignetBlock C validator node spk)
      (fun blockHash t => (∃ n, node.getBestBlockHash n = some blockHash) ∧
        (t.store.dbs.coinbaseTxid.lookup blockHash).isSome)
      (fun _ _ => True) st := by
  rw [generateSignetBlock, Program.wp_bind]
  refine (Program.wp_self _ _).mono (fun tipHeader t _ => ?_) fun _ _ _ => trivial
  rw [Program.wp_bind, Program.wp_get, Program.wp_bind]
  refine (Program.wp_self _ _).mono (fun _ u _ => ?_) fun _ _ _ => trivial
  refine Program.wp_ite.mpr ⟨fun _ => ?_, fun _ => trivial⟩
  rw [Program.wp_bind, Program.wp_get, Program.wp_bind, Program.wp_modify, Program.wp_bind]
  refine (Program.wp_self _ _).mono (fun _ v _ => ?_) fun _ _ _ => trivial
  split
  · exact trivial
  · exact trivial
  · refine Program.wp_ite.mpr ⟨fun _ => trivial, fun _ => ?_⟩
    rw [Program.wp_bind, Program.wp_get, Program.wp_bind]
    refine (Program.wp_self _ _).mono (fun _ w _ => ?_) fun _ _ _ => trivial
    cases hbest : node.getBestBlockHash v.calls with
    | none => exact trivial
    | some blockHash =>
        rw [Program.wp_bind, Program.wp_get, Program.wp_bind]
        exact awaitBlockConnection_stored.mono (fun _ _ hstored => ⟨⟨_, hbest⟩, hstored⟩)
          fun _ _ _ => trivial

/-! The miner ends well without a block, and the old tip is returned. -/

def signetNode : MiningNode where
  network := .signet
  signetChallenge := some [0x51]
  getBlockTemplate _ := none
  submitBlock _ _ := none
  now _ := some 7
  pastSecond _ := false
  hasSignetMiner _ := true
  runSignetMiner _ _ := ⟨[], .exited true false⟩
  getBestBlockHash _ := some firstHash
  connects _ := 0
  polls _ := 1

example : (generateBlock .sample sampleMiner Validator.sampleValidator signetNode payoutSpk mineState).1 =
    .ok firstHash := by decide

end Bip360Enforcer.Mining
