import Bip360Enforcer.BlockProducer.Lemmas.Mine
import Bip360Enforcer.Validator.Lemmas.Reads

/-!
# Generating blocks while the sync task connects them
-/

namespace Bip360Enforcer

open Program (wp)

namespace Validator

variable {C : Crypto} {headers : Set Header} {heightOf : BlockHash → Nat} {chain : List Block}

/-! ## Blocks of the driver -/

theorem HeaderStored.honestReachable {header : Header} {dbs dbs' : Dbs} (hhashes : HonestHashes C headers)
    (hheights : BlockHeights C headers heightOf) (h : HeaderStored C header dbs dbs')
    (hknown : header ∈ headers) (hdbs : HonestReachable C headers heightOf dbs chain) :
    HonestReachable C headers heightOf dbs' chain := by
  cases h with
  | kept => exact hdbs
  | added height _ hparent hfirst =>
      have hindex := (hdbs.chainIndex hhashes hheights).height header.prevBlockhash
      have hentry : height = heightOf (C.blockHash header) ∧ (header.prevBlockhash ≠ .allZeros →
          (dbs.header.lookup header.prevBlockhash).isSome) := by
        by_cases hzero : header.prevBlockhash = .allZeros
        · exact ⟨by rw [hfirst hzero, hheights.first header hknown hzero], fun hne => absurd hzero hne⟩
        · obtain ⟨parentHeight, hlookup, rfl⟩ := hparent hzero
          rw [hlookup] at hindex
          obtain ⟨parent, hstored, hheight⟩ := Option.map_eq_some_iff.mp hindex.symm
          exact ⟨by rw [hheights.next header hknown hzero, hheight], fun _ => by rw [hstored]; rfl⟩
      have hput : Spec (putHeaders C [(header, height)] : Db DbError Unit) dbs
          (fun _ d => d = withHeader C header height dbs) (fun _ _ => False) fun _ => True :=
        putHeaders_singleton_spec trivial
      -- The header can be stored without any operation failing.
      obtain ⟨_, t, hrun, -, ht⟩ := Spec.returns (s := ⟨dbs, [], none, fun _ _ => false, []⟩) hput
        (by rintro ⟨n, hn⟩; cases hn)
      rw [← ht]
      have hhonest : (⟨header, C.blockHash header, height⟩ : RestHeader).Honest C headers heightOf :=
        ⟨hknown, rfl, hentry.1⟩
      exact @HonestReachable.putHeaders _ _ _ _ _ ⟨dbs, [], none, fun _ _ => false, []⟩ _ _ _ [] hdbs hentry.2
        hhonest trivial hrun

theorem HeaderStored.coinbaseTxid_eq {header : Header} {dbs dbs' : Dbs}
    (h : HeaderStored C header dbs dbs') : dbs'.coinbaseTxid = dbs.coinbaseTxid := by
  cases h with
  | kept => rfl
  | added => rfl

end Validator

namespace Mining

open Validator (Accepted BlockHeights Db Dbs FromDb HeaderStored HonestHashes HonestReachable NoP2mr ReadsOnly
  Spec hashesOf tipOf)

variable {α ε ε' : Type} {C : Crypto} {M : Miner} {headers : Set Header} {heightOf : BlockHash → Nat}
  {validator : Validator} {node : MiningNode} {start dbs dbs' : Dbs} {chain new below : List Block}
  {block : Block} {st : MineState} {e : GenerateBlockError} {n : Nat}

/-! ## What holds between the calls -/

def MiningNode.Accepts (node : MiningNode) (block : Block) : Prop := ∃ n, node.submitBlock n block = some none

/-- What it stands for that the node accepts a block, when the chain is `chain` at first and grows by the
accepted blocks alone. -/
structure AcceptsValid (C : Crypto) (headers : Set Header) (heightOf : BlockHash → Nat)
    (validator : Validator) (node : MiningNode) (start : Dbs) (chain : List Block) : Prop where
  known : ∀ block, node.Accepts block → block.header ∈ headers
  /-- A block that it already has is refused. -/
  fresh : ∀ block, node.Accepts block → start.coinbaseTxid.lookup (C.blockHash block.header) = none
  core : ∀ block new, node.Accepts block → (∀ earlier ∈ new, node.Accepts earlier) →
    block.header.prevBlockhash = tipOf C (new ++ chain) → Pqc.CoreChain C (block :: (new ++ chain))
  prevouts : ∀ block new dbs, node.Accepts block → HonestReachable C headers heightOf dbs (new ++ chain) →
    NoP2mr (validator.prefetchedPrevouts C dbs.p2mrUtxos block)

/-- A block as it is mined on top of `below`. -/
structure Mined (C : Crypto) (M : Miner) (node : MiningNode) (below : List Block) (block : Block) :
    Prop where
  rules : ObeysRules C M below block
  later : ∀ tip ∈ below.head?, tip.header.time ≠ 0xffffffff →
    tip.header.time.toNat < block.header.time.toNat
  work : M.validatePow block.header = true
  /-- The transactions are those of a template for the same parent. -/
  template : ∃ n template, node.getBlockTemplate n = some template ∧ template.prevBlockhash = tipOf C below ∧
    decodeTransactions M template.transactions = .ok block.txdata.tail

/-- The blocks `new` are mined and connected, and nothing else. -/
structure Built (C : Crypto) (M : Miner) (headers : Set Header) (heightOf : BlockHash → Nat)
    (node : MiningNode) (start : Dbs) (chain new : List Block) (dbs : Dbs) : Prop where
  reachable : HonestReachable C headers heightOf dbs (new ++ chain)
  accepted : ∀ block ∈ new, node.Accepts block
  infos : ∀ blockHash, (dbs.coinbaseTxid.lookup blockHash).isSome →
    (start.coinbaseTxid.lookup blockHash).isSome ∨ blockHash ∈ hashesOf C new
  mined : ∀ block below, block :: below <:+ new ++ chain → chain.length ≤ below.length →
    Mined C M node below block

namespace Built

theorem headerStored (hhashes : HonestHashes C headers) (hheights : BlockHeights C headers heightOf)
    (h : Built C M headers heightOf node start chain new dbs) (hknown : block.header ∈ headers)
    (hstored : HeaderStored C block.header dbs dbs') :
    Built C M headers heightOf node start chain new dbs' :=
  ⟨hstored.honestReachable hhashes hheights hknown h.reachable, h.accepted,
    hstored.coinbaseTxid_eq ▸ h.infos, h.mined⟩

theorem connect (hhashes : HonestHashes C headers) (hheights : BlockHeights C headers heightOf)
    (hnode : AcceptsValid C headers heightOf validator node start chain)
    (h : Built C M headers heightOf node start chain new dbs) (hblock : node.Accepts block)
    (hmined : Mined C M node (new ++ chain) block) {extra : PrevoutMap} {event : Validator.Event}
    {u v : Validator.Store} (hextra : NoP2mr extra)
    (haccepted : Accepted C (validator.handler extra) block dbs dbs' event u v) :
    Built C M headers heightOf node start chain (block :: new) dbs' := by
  have hknown := hnode.known block hblock
  have hstored := h.headerStored hhashes hheights hknown haccepted.header
  have hcore := hnode.core block new hblock h.accepted hmined.rules.parent
  rw [haccepted.result]
  refine ⟨.connect hstored.reachable hknown hcore hextra haccepted.run, ?_, ?_, ?_⟩
  · intro other hother
    rcases List.mem_cons.mp hother with rfl | hother
    · exact hblock
    · exact h.accepted other hother
  · obtain ⟨-, height, coinbase, txs, diff, header, work, hconnects, -⟩ :=
      (Validator.connectBlock_spec fun _ h => h).ok haccepted.run
    rw [hconnects.tip (hstored.reachable.reachable.tracked hhashes).indexed hhashes hknown]
    intro blockHash hsome
    by_cases hself : blockHash = C.blockHash block.header
    · exact .inr (hself ▸ List.mem_cons_self)
    · have hold : (u.dbs.coinbaseTxid.lookup blockHash).isSome := by
        rwa [← AList.lookup_insert_ne hself]
      exact (hstored.infos blockHash hold).imp_right fun hmem => List.mem_cons_of_mem _ hmem
  · intro other below hsuffix hlength
    rcases List.suffix_cons_iff.mp hsuffix with heq | hsuffix
    · obtain ⟨rfl, rfl⟩ := List.cons.inj heq
      exact hmined
    · exact h.mined other below hsuffix hlength

/-- A block that is on top of the chain has no infos. -/
theorem not_stored (hhashes : HonestHashes C headers)
    (hnode : AcceptsValid C headers heightOf validator node start chain)
    (h : Built C M headers heightOf node start chain new dbs) (hblock : node.Accepts block)
    (hmined : Mined C M node (new ++ chain) block) :
    dbs.coinbaseTxid.lookup (C.blockHash block.header) = none := by
  rw [← Option.not_isSome_iff_eq_none]
  intro hsome
  rcases h.infos _ hsome with hstart | hmem
  · rw [hnode.fresh block hblock] at hstart
    cases hstart
  · have hindexed := (h.reachable.reachable.tracked hhashes).indexed
    refine hindexed.notMem hhashes (hnode.known block hblock) ?_ ?_
    · rw [hindexed.tip, hmined.rules.parent]
      rfl
    · rw [hashesOf, List.map_append]
      exact List.mem_append_left _ hmem

end Built

/-- No list of hashes is without a root, and the search ends unless there is nothing to be found. -/
structure Explained (C : Crypto) (M : Miner) (e : GenerateBlockError) : Prop where
  root : e ≠ .panicked
  nonce : e = .endless → ∃ below txs block, Assembled C M below txs block ∧
    ∀ nonce, M.validatePow { block.header with nonce := nonce } = false

theorem Explained.of_ne (hroot : e ≠ .panicked) (hnonce : e ≠ .endless) : Explained C M e :=
  ⟨hroot, fun he => absurd he hnonce⟩

/-- Nothing waits to be connected. -/
def Idle (C : Crypto) (M : Miner) (headers : Set Header) (heightOf : BlockHash → Nat) (node : MiningNode)
    (start : Dbs) (chain new : List Block) (st : MineState) : Prop :=
  Built C M headers heightOf node start chain new st.store.dbs ∧ st.submitted = []

/-- What has become of a submitted block: it waits, it is connected, or it has been refused. -/
inductive Settling (C : Crypto) (M : Miner) (headers : Set Header) (heightOf : BlockHash → Nat)
    (node : MiningNode) (start : Dbs) (chain new : List Block) (block : Block) (st : MineState) : Prop where
  | waits (built : Built C M headers heightOf node start chain new st.store.dbs)
      (submitted : st.submitted = [block])
  | connected (idle : Idle C M headers heightOf node start chain (block :: new) st)
  | refused (idle : Idle C M headers heightOf node start chain new st)

/-- Where a call has failed: at most the block that it was about is connected. -/
def Stopped (C : Crypto) (M : Miner) (headers : Set Header) (heightOf : BlockHash → Nat) (node : MiningNode)
    (start : Dbs) (chain : List Block) (limit : Nat) (st : MineState) : Prop :=
  ∃ new, new.length ≤ limit ∧ Built C M headers heightOf node start chain new st.store.dbs

theorem Settling.stopped (h : Settling C M headers heightOf node start chain new block st) :
    Stopped C M headers heightOf node start chain (new.length + 1) st := by
  cases h with
  | waits built => exact ⟨new, Nat.le_succ _, built⟩
  | connected idle => exact ⟨block :: new, Nat.le_refl _, idle.1⟩
  | refused idle => exact ⟨new, Nat.le_succ _, idle.1⟩

theorem Settling.same {t : MineState} (h : Settling C M headers heightOf node start chain new block st)
    (hdbs : t.store.dbs = st.store.dbs) (hsubmitted : t.submitted = st.submitted) :
    Settling C M headers heightOf node start chain new block t := by
  cases h with
  | waits built submitted => exact .waits (hdbs ▸ built) (hsubmitted.trans submitted)
  | connected idle => exact .connected ⟨hdbs ▸ idle.1, hsubmitted.trans idle.2⟩
  | refused idle => exact .refused ⟨hdbs ▸ idle.1, hsubmitted.trans idle.2⟩

theorem Settling.connected_of_stored (hhashes : HonestHashes C headers)
    (hnode : AcceptsValid C headers heightOf validator node start chain) (hblock : node.Accepts block)
    (hmined : Mined C M node (new ++ chain) block)
    (h : Settling C M headers heightOf node start chain new block st)
    (hstored : (st.store.dbs.coinbaseTxid.lookup (C.blockHash block.header)).isSome) :
    Idle C M headers heightOf node start chain (block :: new) st := by
  cases h with
  | waits built =>
      rw [built.not_stored hhashes hnode hblock hmined] at hstored
      cases hstored
  | connected idle => exact idle
  | refused idle =>
      rw [idle.1.not_stored hhashes hnode hblock hmined] at hstored
      cases hstored

/-! ## The sync task -/

theorem onStore_wp {x : Db ε α} {f : ε → ε'} {post : α → Dbs → Prop} {failed : ε → Dbs → Prop}
    {fault : ε → Prop} (hreads : ReadsOnly x) (hx : Spec x st.store.dbs post failed fault) :
    wp (onStore f x)
      (fun a t => t.store.dbs = st.store.dbs ∧ t.submitted = st.submitted ∧ post a st.store.dbs)
      (fun e t => t.store.dbs = st.store.dbs ∧ t.submitted = st.submitted ∧
        ∃ e', e = f e' ∧ (failed e' st.store.dbs ∨ fault e')) st := by
  have hdbs := hreads st.store
  rw [onStore, Program.wp_mapError, Program.wp_focus]
  refine Program.wp_iff.mpr ⟨fun a t hrun => ?_, fun e t hrun => ?_⟩
  · rw [hrun] at hdbs
    have hpost := (hx.ok hrun).2
    rw [hdbs] at hpost
    exact ⟨hdbs, rfl, hpost⟩
  · rw [hrun] at hdbs
    have hfailed := (hx.error hrun).2
    rw [hdbs] at hfailed
    exact ⟨hdbs, rfl, e, rfl, hfailed.imp_right fun hfault => hfault.2⟩

theorem connectSubmitted_idle (new : List Block) (h : Idle C M headers heightOf node start chain new st) :
    wp (connectSubmitted C validator n) (fun _ t => Idle C M headers heightOf node start chain new t)
      (fun _ _ => False) st := by
  cases n with
  | zero => exact h
  | succ n =>
      rw [connectSubmitted, Program.wp_bind, Program.wp_get, h.2]
      exact h

theorem connectSubmitted_settling (hhashes : HonestHashes C headers)
    (hheights : BlockHeights C headers heightOf)
    (hnode : AcceptsValid C headers heightOf validator node start chain) (hblock : node.Accepts block)
    (hmined : Mined C M node (new ++ chain) block)
    (h : Settling C M headers heightOf node start chain new block st) :
    wp (connectSubmitted C validator n)
      (fun _ t => Settling C M headers heightOf node start chain new block t) (fun _ _ => False) st := by
  cases h with
  | connected idle => exact (connectSubmitted_idle _ idle).mono (fun _ _ h => .connected h) fun _ _ h => h
  | refused idle => exact (connectSubmitted_idle _ idle).mono (fun _ _ h => .refused h) fun _ _ h => h
  | waits built submitted =>
      cases n with
      | zero => exact .waits built submitted
      | succ n =>
          rw [connectSubmitted, Program.wp_bind, Program.wp_get, submitted]
          rw [Program.wp_bind, Program.wp_attempt, onStore, Program.wp_mapError, Program.wp_focus]
          refine Validator.connectBlock_wp.mono ?_ ?_
          · rintro action store ⟨extra, hextra, -, -, haction⟩
            simp only [Program.wp_bind, Program.wp_modify]
            cases action with
            | accept =>
                obtain ⟨event, u, v, haccepted, -⟩ := haction
                have hno : NoP2mr extra := by
                  rcases hextra with rfl | rfl
                  · intro op txout hlookup
                    cases hlookup
                  · exact hnode.prevouts block new _ hblock built.reachable
                refine (connectSubmitted_idle (block :: new) ⟨?_, rfl⟩).mono
                  (fun _ _ h => .connected h) fun _ _ h => h
                exact built.connect hhashes hheights hnode hblock hmined hno haccepted
            | reject =>
                refine (connectSubmitted_idle new ⟨?_, rfl⟩).mono
                  (fun _ _ h => .refused h) fun _ _ h => h
                exact built.headerStored hhashes hheights (hnode.known block hblock) haction.1
          · rintro e store ⟨-, -, hdbs, -, -⟩
            exact .waits (hdbs ▸ built) submitted

theorem wait_idle (h : Idle C M headers heightOf node start chain new st) :
    wp (wait C validator node) (fun _ t => Idle C M headers heightOf node start chain new t)
      (fun _ _ => False) st := by
  rw [wait, Program.wp_bind, Program.wp_get, Program.wp_bind, Program.wp_modify]
  exact connectSubmitted_idle new h

theorem wait_settling (hhashes : HonestHashes C headers) (hheights : BlockHeights C headers heightOf)
    (hnode : AcceptsValid C headers heightOf validator node start chain) (hblock : node.Accepts block)
    (hmined : Mined C M node (new ++ chain) block)
    (h : Settling C M headers heightOf node start chain new block st) :
    wp (wait C validator node) (fun _ t => Settling C M headers heightOf node start chain new block t)
      (fun _ _ => False) st := by
  rw [wait, Program.wp_bind, Program.wp_get, Program.wp_bind, Program.wp_modify]
  apply connectSubmitted_settling hhashes hheights hnode hblock hmined
  cases h with
  | waits built submitted => exact .waits built submitted
  | connected idle => exact .connected idle
  | refused idle => exact .refused idle

/-! ## Waiting for a block -/

theorem tryGetBlockInfos_spec (hhashes : HonestHashes C headers) (hheights : BlockHeights C headers heightOf)
    (h : HonestReachable C headers heightOf dbs chain) (blockHash : BlockHash) :
    Spec (Validator.tryGetBlockInfos C blockHash 0) dbs
      (fun found d => found.isSome → (d.coinbaseTxid.lookup blockHash).isSome) (fun _ _ => True)
      fun _ => True := by
  refine Spec.bind (Spec.access trivial (Spec.bind ((Validator.dbs_tryGetHeaderInfos_spec hhashes hheights
    (h.chainIndex hhashes hheights)).mono ?_ (fun _ _ _ => trivial) fun _ _ => trivial)))
  rintro found d ⟨rfl, hfound⟩
  cases found with
  | none => exact Spec.pure fun hsome => by cases hsome
  | some infos =>
      obtain ⟨path, -, -, hinfos⟩ := hfound
      have htail : infos.tail = [] := by
        have hlen := hinfos.length_eq
        rw [Validator.NonEmpty.toList, List.length_cons, List.length_take] at hlen
        exact List.length_eq_zero_iff.mp (by omega)
      refine Spec.bind (Spec.bind (Spec.tryGet trivial ?_))
      cases hlookup : d.coinbaseTxid.lookup blockHash with
      | none => exact Spec.pure (Spec.pure fun hsome => by cases hsome)
      | some coinbaseTxid =>
          rw [htail]
          exact Spec.pure (Spec.bind (Spec.pure (Spec.pure fun _ => by rw [hlookup]; rfl)))

/-- The wait for a submitted block ends when it is connected. -/
theorem awaitBlockConnection_wp (hhashes : HonestHashes C headers)
    (hheights : BlockHeights C headers heightOf)
    (hnode : AcceptsValid C headers heightOf validator node start chain) (hblock : node.Accepts block)
    (hmined : Mined C M node (new ++ chain) block) {polls : Nat}
    (h : Settling C M headers heightOf node start chain new block st) :
    wp (awaitBlockConnection C validator node (C.blockHash block.header) polls)
      (fun _ t => Idle C M headers heightOf node start chain (block :: new) t)
      (fun e t => Stopped C M headers heightOf node start chain (new.length + 1) t ∧ Explained C M e) st := by
  induction polls generalizing st with
  | zero => exact ⟨h.stopped, .of_ne (by rintro ⟨⟩) (by rintro ⟨⟩)⟩
  | succ polls ih =>
      have hbuilt : ∃ new', Built C M headers heightOf node start chain new' st.store.dbs := by
        obtain ⟨new', -, hbuilt⟩ := h.stopped
        exact ⟨new', hbuilt⟩
      obtain ⟨new', hbuilt⟩ := hbuilt
      rw [awaitBlockConnection, Program.wp_bind]
      refine (onStore_wp (Validator.readsOnly_tryGetBlockInfos _ _)
        (tryGetBlockInfos_spec hhashes hheights hbuilt.reachable _)).mono ?_ ?_
      · rintro found t ⟨hdbs, hsubmitted, hfound⟩
        have ht := h.same hdbs hsubmitted
        cases found with
        | none =>
            rw [Program.wp_bind]
            exact (wait_settling hhashes hheights hnode hblock hmined ht).mono (fun _ _ h => ih h)
              fun _ _ h => h.elim
        | some infos =>
            have hsome := hfound rfl
            rw [← hdbs] at hsome
            exact ht.connected_of_stored hhashes hnode hblock hmined hsome
      · rintro e t ⟨hdbs, hsubmitted, e', rfl, -⟩
        exact ⟨(h.same hdbs hsubmitted).stopped, .of_ne (by rintro ⟨⟩) (by rintro ⟨⟩)⟩

end Mining

end Bip360Enforcer
