import Bip360Enforcer.Validator.Infos
import Bip360Enforcer.Validator.Theorems.Reorg

/-!
# The infos of a block are those of its chain
-/

namespace Bip360Enforcer.Validator

open Forest (Path)
open Program (wp)

variable {C : Crypto} {headers : Set Header} {heightOf : BlockHash → Nat} {dbs : Dbs} {s t : Store}
  {chain above below : List Block} {block : Block} {blockHash : BlockHash} {n : Nat}

/-! ## Header infos -/

def headerInfoAt (C : Crypto) (heightOf : BlockHash → Nat) (header : Header) : HeaderInfo where
  blockHash := C.blockHash header
  prevBlockHash := header.prevBlockhash
  height := heightOf (C.blockHash header)
  work := C.work header
  timestamp := header.time

/-- The info says of the stored block what is so. -/
def InfoOf (C : Crypto) (heightOf : BlockHash → Nat) (stored : HashDb Header) (blockHash : BlockHash)
    (info : HeaderInfo) : Prop :=
  ∃ header, stored.lookup blockHash = some header ∧ C.blockHash header = blockHash ∧
    info = headerInfoAt C heightOf header

/-- Reads of a fitting index fail only where the database does. -/
def IoOnly (e : GetBlockInfosError) : Prop := e = .db .io

theorem tryGetHeaderInfo_spec (h : ChainIndex C headers heightOf dbs) :
    Spec (BlockHashDbs.tryGetHeaderInfo C blockHash) dbs
      (fun found d => d = dbs ∧ match found with
        | none => dbs.header.lookup blockHash = none
        | some info => InfoOf C heightOf dbs.header blockHash info)
      (fun _ _ => False) IoOnly := by
  refine Spec.bind (Spec.tryGet rfl ?_)
  cases hstored : dbs.header.lookup blockHash with
  | none => exact Spec.pure ⟨rfl, rfl⟩
  | some header =>
      obtain ⟨-, rfl⟩ := h.keyed _ _ hstored
      refine Spec.ite (fun hne => absurd rfl hne) fun _ => Spec.bind (Spec.tryGet rfl ?_)
      rw [h.height, hstored]
      exact Spec.pure ⟨rfl, header, hstored, rfl, rfl⟩

/-- The infos of the blocks of a path, one after the other. -/
theorem ancestorInfos_spec (hhashes : HonestHashes C headers) (h : ChainIndex C headers heightOf dbs)
    {path : List BlockHash} (hpath : Path (parentOf dbs.header) .allZeros blockHash path) :
    Spec (BlockHashDbs.ancestorInfos C n blockHash) dbs
      (fun infos d => d = dbs ∧ List.Forall₂ (InfoOf C heightOf dbs.header) (path.take n) infos)
      (fun _ _ => False) IoOnly := by
  induction n generalizing blockHash path with
  | zero => exact Spec.pure ⟨rfl, .nil⟩
  | succ n ih =>
      rw [BlockHashDbs.ancestorInfos]
      cases hpath with
      | here => exact Spec.ite (fun _ => Spec.pure ⟨rfl, .nil⟩) fun hne => absurd rfl hne
      | @above _ parent path hparent hrest =>
          obtain ⟨header, hstored, rfl⟩ := Option.map_eq_some_iff.mp hparent
          refine Spec.ite (fun hzero => ?_) fun _ => ?_
          · rw [hzero, Keyed.zeros h.keyed hhashes] at hstored
            cases hstored
          · refine Spec.bind ((tryGetHeaderInfo_spec h).mono ?_ (fun _ _ hfalse => hfalse) fun _ he => he)
            rintro found d ⟨rfl, hfound⟩
            cases found with
            | none =>
                rw [hstored] at hfound
                cases hfound
            | some info =>
                obtain ⟨header', hstored', hhash, rfl⟩ := hfound
                obtain rfl := Option.some.inj (hstored.symm.trans hstored')
                refine Spec.bind ((ih hrest).mono ?_ (fun _ _ hfalse => hfalse) fun _ he => he)
                rintro infos d ⟨rfl, hinfos⟩
                exact Spec.pure ⟨rfl, .cons ⟨header, hstored, hhash, rfl⟩ hinfos⟩

/-- What the header infos of a block are: those of its chain, newest first, as many as were asked for. -/
def AnswersPath (C : Crypto) (heightOf : BlockHash → Nat) (stored : HashDb Header) (blockHash : BlockHash)
    (maxAncestors : Nat) : Option (NonEmpty HeaderInfo) → Prop
  | none => stored.lookup blockHash = none
  | some infos => ∃ path, Path (parentOf stored) .allZeros blockHash path ∧
      path.length = heightOf blockHash + 1 ∧
      List.Forall₂ (InfoOf C heightOf stored) (path.take (maxAncestors + 1)) infos.toList

theorem dbs_tryGetHeaderInfos_spec (hhashes : HonestHashes C headers)
    (hheights : BlockHeights C headers heightOf) (h : ChainIndex C headers heightOf dbs) :
    Spec (BlockHashDbs.tryGetHeaderInfos C blockHash n) dbs
      (fun found d => d = dbs ∧ AnswersPath C heightOf dbs.header blockHash n found)
      (fun _ _ => False) IoOnly := by
  refine Spec.bind ((tryGetHeaderInfo_spec h).mono ?_ (fun _ _ hfalse => hfalse) fun _ he => he)
  rintro found d ⟨rfl, hfound⟩
  cases found with
  | none => exact Spec.pure ⟨rfl, hfound⟩
  | some info =>
      obtain ⟨header, hstored, hhash, rfl⟩ := hfound
      have hforest := h.forest hhashes hheights
      have hprev : StoredOrZero d header.prevBlockhash := (hforest.parent _ _ hstored).symm
      obtain ⟨path, hpath⟩ := (hforest.zero_ancestor hprev).exists_path
      have hwhole := Path.above (parentOf_of_lookup hstored) hpath
      refine Spec.bind ((ancestorInfos_spec hhashes h hpath).mono ?_ (fun _ _ hfalse => hfalse)
        fun _ he => he)
      rintro infos d ⟨rfl, hinfos⟩
      refine Spec.pure ⟨rfl, _, hwhole, ?_, .cons ⟨header, hstored, hhash, rfl⟩ hinfos⟩
      have hlevel := hwhole.level_eq hforest.graded
      rw [hforest.level_zero, levelOf, h.height, hstored] at hlevel
      simpa using hlevel.symm

/-- In every database that a run reaches, and of every block, on the active chain or not: the answer is
the chain of the block back from it, and the assertion about the stored hash never fails. -/
theorem tryGetHeaderInfos_answersPath (hhashes : HonestHashes C headers)
    (hheights : BlockHeights C headers heightOf) (h : IndexRun C headers heightOf s)
    (blockHash : BlockHash) (n : Nat) :
    (∀ found t, tryGetHeaderInfos C blockHash n s = (.ok found, t) →
      t.dbs = s.dbs ∧ AnswersPath C heightOf s.dbs.header blockHash n found) ∧
    ∀ e t, tryGetHeaderInfos C blockHash n s = (.error e, t) → e = .db .io ∧ Faulty s := by
  have hindex := h.chainIndex hhashes hheights
  have hspec : Spec (tryGetHeaderInfos C blockHash n) s.dbs
      (fun found d => d = s.dbs ∧ AnswersPath C heightOf s.dbs.header blockHash n found)
      (fun _ _ => False) IoOnly :=
    Spec.bind (Spec.access rfl (dbs_tryGetHeaderInfos_spec hhashes hheights hindex))
  refine ⟨fun found t hrun => (hspec.ok hrun).2, fun e t hrun => ?_⟩
  rcases (hspec.error hrun).2 with hfalse | ⟨hfaulty, hio⟩
  · exact hfalse.elim
  · exact ⟨hio, hfaulty⟩

/-! A block that has given way to its sibling still answers. -/

def childInfos : NonEmpty HeaderInfo where
  head := headerInfoAt .sample forkHeightOf child.header
  tail := [headerInfoAt .sample forkHeightOf genesis.header]

theorem forkedStore_infos :
    (tryGetHeaderInfos .sample childHash 7 forkedStore).1 = .ok (some childInfos) ∧
      AnswersPath .sample forkHeightOf forkedStore.dbs.header childHash 7 (some childInfos) := by
  have hrun : (tryGetHeaderInfos .sample childHash 7 forkedStore).1 = .ok (some childInfos) := by
    decide +kernel
  obtain ⟨hok, -⟩ := tryGetHeaderInfos_answersPath forkHeaders_honest forkHeights forkedStore_run childHash 7
  exact ⟨hrun, (hok _ _ (Program.eq_of_fst hrun)).2⟩

theorem getHeaderInfo_height :
    Spec (getHeaderInfo C blockHash) dbs
      (fun info d => d = dbs ∧ dbs.height.lookup blockHash = some info.height) (fun _ _ => True)
      fun _ => True := by
  refine Spec.bind (Spec.tryGet trivial ?_)
  cases dbs.header.lookup blockHash with
  | none => exact Spec.fail trivial
  | some header =>
      refine Spec.bind (Spec.tryGet trivial ?_)
      cases dbs.height.lookup blockHash with
      | none => exact Spec.fail trivial
      | some height => exact Spec.pure ⟨rfl, rfl⟩

/-! ## Block infos -/

/-- The coinbase transaction of every block of the chain is stored. -/
def CoinbasesStored (C : Crypto) (dbs : Dbs) (chain : List Block) : Prop :=
  ∀ block ∈ chain, ∃ coinbase txs, block.txdata = coinbase :: txs ∧
    dbs.coinbaseTxid.lookup (C.blockHash block.header) = some (C.computeTxid coinbase)

theorem HonestReachable.coinbasesStored (hhashes : HonestHashes C headers)
    (h : HonestReachable C headers heightOf dbs chain) : CoinbasesStored C dbs chain := by
  induction h with
  | empty => exact fun block hblock => absurd hblock List.not_mem_nil
  | @putHeaders ε _ s _ _ first rest start parent honest ascends run ih =>
      have hkeyed := (start.reachable.tracked hhashes).indexed.keyed
      have hknown : ∀ entry ∈ storedEntries (first :: rest), entry.1 ∈ headers := by
        intro entry hentry
        obtain ⟨restHeader, hmem, rfl⟩ := List.mem_map.mp hentry
        rcases List.mem_cons.mp hmem with rfl | hmem
        · exact honest.known
        · exact ascends.known restHeader hmem
      have hput : Spec (Validator.putHeaders C (storedEntries (first :: rest)) : Db ε Unit) s.dbs
          (fun _ d => MoreHeaders C headers s.dbs d) (fun _ _ => True) fun _ => True :=
        putHeaders_spec hhashes hkeyed hknown trivial
      obtain ⟨header, height, hdbs⟩ := (hput.ok run).2.rest
      rw [hdbs]
      exact ih
  | @connect s t chain _ block _ start known _ _ run ih =>
      have hindexed := (start.reachable.tracked hhashes).indexed
      obtain ⟨-, height, coinbase, txs, diff, header, work, hconnects, -⟩ :=
        (connectBlock_spec fun _ h => h).ok run
      have hnotin := hindexed.notMem hhashes known hconnects.onTip
      rw [hconnects.tip hindexed hhashes known]
      intro other hother
      rcases List.mem_cons.mp hother with rfl | hother
      · exact ⟨coinbase, txs, hconnects.txdata, AList.lookup_insert _⟩
      · obtain ⟨coinbase', txs', htxdata, hstored⟩ := ih other hother
        have hne : C.blockHash other.header ≠ C.blockHash block.header := fun heq =>
          hnotin (heq ▸ List.mem_map_of_mem hother)
        exact ⟨coinbase', txs', htxdata, (AList.lookup_insert_ne hne).trans hstored⟩
  | disconnect _ run ih =>
      rcases disconnectBlock_wp.ok run with ⟨-, -, hdbs⟩ | ⟨diff, header, u, hdisconnects, -, rfl⟩
      · rw [hdbs]
        exact fun other hother => ih other (List.mem_cons_of_mem _ hother)
      · change CoinbasesStored C u.dbs _
        rw [hdisconnects.result]
        exact fun other hother => ih other (List.mem_cons_of_mem _ hother)

/-- What is known of the blocks of a chain, newest first. -/
def chainInfos (C : Crypto) : List Block → List (HeaderInfo × Option BlockInfo)
  | [] => []
  | block :: below => ({
      blockHash := C.blockHash block.header
      prevBlockHash := tipOf C below
      height := below.length
      work := C.work block.header
      timestamp := block.header.time },
    block.txdata.head?.map fun coinbase => ⟨C.computeTxid coinbase⟩) :: chainInfos C below

theorem HonestReachable.known (h : HonestReachable C headers heightOf dbs chain) :
    ∀ block ∈ chain, block.header ∈ headers := by
  induction h with
  | empty => exact fun block hblock => absurd hblock List.not_mem_nil
  | putHeaders _ _ _ _ _ ih => exact ih
  | connect _ known _ _ _ ih =>
      intro block hblock
      rcases List.mem_cons.mp hblock with rfl | hblock
      · exact known
      · exact ih block hblock
  | disconnect _ _ ih => exact fun block hblock => ih block (List.mem_cons_of_mem _ hblock)

/-- The stored headers are those of the blocks of the chain. -/
structure StoredChain (C : Crypto) (headers : Set Header) (heightOf : BlockHash → Nat) (dbs : Dbs)
    (chain : List Block) : Prop where
  keyed : Keyed C headers dbs
  linked : Linked dbs.header (hashesOf C chain)
  known : ∀ block ∈ chain, block.header ∈ headers

namespace StoredChain

theorem tail (h : StoredChain C headers heightOf dbs (block :: below)) :
    StoredChain C headers heightOf dbs below :=
  ⟨h.keyed, h.linked.tail, fun other hother => h.known other (List.mem_cons_of_mem _ hother)⟩

theorem header (hhashes : HonestHashes C headers)
    (h : StoredChain C headers heightOf dbs (block :: below)) :
    dbs.header.lookup (C.blockHash block.header) = some block.header ∧
      block.header.prevBlockhash = tipOf C below := by
  obtain ⟨header, hstored, hprev⟩ :=
    h.linked (C.blockHash block.header) (hashesOf C below) (List.suffix_refl _)
  obtain ⟨hmem, hhash⟩ := h.keyed _ _ hstored
  obtain rfl := hhashes.injective hmem (h.known block List.mem_cons_self) hhash
  exact ⟨hstored, hprev⟩

/-- The blocks of a chain are counted from the first one on. -/
theorem heightOf_tip (hhashes : HonestHashes C headers) (hheights : BlockHeights C headers heightOf)
    (h : StoredChain C headers heightOf dbs (block :: below)) :
    heightOf (C.blockHash block.header) = below.length := by
  induction below generalizing block with
  | nil => exact hheights.first _ (h.known block List.mem_cons_self) (h.header hhashes).2
  | cons next below ih =>
      have hprev : block.header.prevBlockhash = C.blockHash next.header := (h.header hhashes).2
      have hzero : block.header.prevBlockhash ≠ .allZeros := by
        rw [hprev]
        exact hhashes.nonzero _ (h.tail.known next List.mem_cons_self)
      rw [hheights.next _ (h.known block List.mem_cons_self) hzero, hprev, ih h.tail, List.length_cons]

theorem headerInfos (hhashes : HonestHashes C headers) (hheights : BlockHeights C headers heightOf)
    (h : StoredChain C headers heightOf dbs chain) {infos : List HeaderInfo}
    (hinfos : List.Forall₂ (InfoOf C heightOf dbs.header) ((hashesOf C chain).take n) infos) :
    infos = ((chainInfos C chain).take n).map Prod.fst := by
  induction chain generalizing n infos with
  | nil =>
      rw [hashesOf, List.map_nil, List.take_nil] at hinfos
      cases hinfos
      rw [chainInfos, List.take_nil]
      rfl
  | cons block below ih =>
      cases n with
      | zero =>
          cases hinfos
          rfl
      | succ n =>
          rw [hashesOf, List.map_cons, List.take_succ_cons] at hinfos
          cases hinfos with
          | cons hinfo hrest =>
              obtain ⟨header, hstored, -, rfl⟩ := hinfo
              obtain ⟨hblock, hprev⟩ := h.header hhashes
              obtain rfl := Option.some.inj (hblock.symm.trans hstored)
              rw [chainInfos, List.take_succ_cons, List.map_cons, ih h.tail hrest, headerInfoAt,
                h.heightOf_tip hhashes hheights, hprev]

end StoredChain

theorem HonestReachable.storedChain (hhashes : HonestHashes C headers)
    (h : HonestReachable C headers heightOf dbs (above ++ below)) :
    StoredChain C headers heightOf dbs below := by
  have hindexed := (h.reachable.tracked hhashes).indexed
  refine ⟨hindexed.keyed, fun hash rest hsuffix => hindexed.linked hash rest (hsuffix.trans ?_),
    fun other hother => h.known other (List.mem_append_right _ hother)⟩
  rw [hashesOf, hashesOf, List.map_append]
  exact List.suffix_append _ _

theorem blockInfosOf_spec (h : CoinbasesStored C dbs chain) :
    Spec (BlockHashDbs.blockInfosOf (((chainInfos C chain).take n).map Prod.fst)) dbs
      (fun infos d => d = dbs ∧ infos.map (fun info => (info.1, some info.2)) = (chainInfos C chain).take n)
      (fun _ _ => False) IoOnly := by
  induction chain generalizing n with
  | nil =>
      rw [chainInfos, List.take_nil]
      exact Spec.pure ⟨rfl, rfl⟩
  | cons block below ih =>
      cases n with
      | zero => exact Spec.pure ⟨rfl, rfl⟩
      | succ n =>
          obtain ⟨coinbase, txs, htxdata, hstored⟩ := h block List.mem_cons_self
          rw [chainInfos, List.take_succ_cons, List.map_cons, BlockHashDbs.blockInfosOf]
          refine Spec.bind (Spec.bind (Spec.tryGet rfl ?_))
          rw [hstored]
          refine Spec.pure ?_
          refine Spec.bind ((ih fun other hother => h other (List.mem_cons_of_mem _ hother)).mono ?_
            (fun _ _ hfalse => hfalse) fun _ he => he)
          rintro infos d ⟨rfl, hinfos⟩
          refine Spec.pure ⟨rfl, ?_⟩
          rw [List.map_cons, hinfos, htxdata]
          rfl

/-- The infos of the blocks of a chain that is connected. -/
theorem getBlockInfos_spec (hhashes : HonestHashes C headers) (hheights : BlockHeights C headers heightOf)
    (hindex : ChainIndex C headers heightOf dbs)
    (h : StoredChain C headers heightOf dbs (block :: below))
    (hcoinbases : CoinbasesStored C dbs (block :: below)) :
    Spec (getBlockInfos C (C.blockHash block.header) n) dbs
      (fun infos d => d = dbs ∧ infos.toList.map (fun info => (info.1, some info.2)) =
        (chainInfos C (block :: below)).take (n + 1))
      (fun _ _ => False) IoOnly := by
  refine Spec.bind (Spec.bind (Spec.access rfl (Spec.bind
    ((dbs_tryGetHeaderInfos_spec hhashes hheights hindex).mono ?_ (fun _ _ hfalse => hfalse)
      fun _ he => he))))
  rintro found d ⟨rfl, hfound⟩
  cases found with
  | none =>
      rw [AnswersPath, (h.header hhashes).1] at hfound
      cases hfound
  | some headerInfos =>
      obtain ⟨path, hpath, -, hinfos⟩ := hfound
      have hroot : parentOf d.header .allZeros = none := by
        rw [parentOf, Keyed.zeros h.keyed hhashes]
        rfl
      obtain rfl := hpath.unique hroot (path_of_linked h.linked)
      have hwhole := h.headerInfos hhashes hheights hinfos
      rw [chainInfos, List.take_succ_cons, List.map_cons, NonEmpty.toList] at hwhole
      obtain ⟨hhead, htail⟩ := List.cons_eq_cons.mp hwhole
      obtain ⟨coinbase, txs, htxdata, hstored⟩ := hcoinbases block List.mem_cons_self
      refine Spec.bind (Spec.bind (Spec.tryGet rfl ?_))
      rw [hstored, htail]
      refine Spec.pure (Spec.bind ((blockInfosOf_spec fun other hother =>
        hcoinbases other (List.mem_cons_of_mem _ hother)).mono ?_ (fun _ _ hfalse => hfalse) fun _ he => he))
      rintro infos d ⟨rfl, hrest⟩
      refine Spec.pure (Spec.pure ⟨rfl, ?_⟩)
      rw [NonEmpty.toList, List.map_cons, hrest, hhead, chainInfos, List.take_succ_cons, htxdata]
      rfl

/-- While a block is on the active chain, its infos and those of the blocks before it are the ones of the
chain, and its own are those that were broadcast when it was connected. -/
theorem getBlockInfos_broadcast (hhashes : HonestHashes C headers)
    (hheights : BlockHeights C headers heightOf) {handler : BlockHandler} {event : Event} {u : Store}
    (start : HonestReachable C headers heightOf s.dbs chain)
    (connected : handler.connectBlock C block s = (.ok event, t))
    (h : HonestReachable C headers heightOf u.dbs (above ++ block :: below)) (n : Nat) :
    (∀ infos v, getBlockInfos C (C.blockHash block.header) n u = (.ok infos, v) →
      v.dbs = u.dbs ∧ event = .connectBlock infos.head.1 infos.head.2 ∧
      infos.toList.map (fun info => (info.1, some info.2)) = (chainInfos C (block :: below)).take (n + 1)) ∧
    ∀ e v, getBlockInfos C (C.blockHash block.header) n u = (.error e, v) → e = .db .io ∧ Faulty u := by
  have hindex := h.chainIndex hhashes hheights
  have hstored := h.storedChain hhashes
  have hcoinbases : CoinbasesStored C u.dbs (block :: below) := fun other hother =>
    h.coinbasesStored hhashes other (List.mem_append_right _ hother)
  have hspec := @getBlockInfos_spec C headers heightOf u.dbs below block n hhashes hheights hindex hstored
    hcoinbases
  refine ⟨fun infos v hrun => ?_, fun e v hrun => ?_⟩
  · obtain ⟨-, hdbs, hinfos⟩ := hspec.ok hrun
    refine ⟨hdbs, ?_, hinfos⟩
    obtain ⟨-, height, coinbase, txs, diff, header, work, hconnects, rfl⟩ :=
      (connectBlock_spec fun _ h => h).ok connected
    have hheight : height = below.length := by
      have hlookup := (start.chainIndex hhashes hheights).height (C.blockHash block.header)
      rw [hconnects.hasHeight, hconnects.hasHeader, Option.map_some] at hlookup
      rw [Option.some.inj hlookup, hstored.heightOf_tip hhashes hheights]
    rw [NonEmpty.toList, List.map_cons, chainInfos, List.take_succ_cons, hconnects.txdata] at hinfos
    obtain ⟨hheader, hinfo⟩ := Prod.mk.inj (List.cons_eq_cons.mp hinfos).1
    rw [hheader, Option.some.inj hinfo, connectEvent, hheight, (hstored.header hhashes).2]
  · rcases (hspec.error hrun).2 with hfalse | ⟨hfaulty, hio⟩
    · exact hfalse.elim
    · exact ⟨hio, hfaulty⟩

/-! The first block, while the second one is on top of it. -/

theorem headersStore_reachable :
    HonestReachable .sample forkHeaders forkHeightOf headersStore.dbs [] := by
  have hheaders : (putHeaders .sample (storedEntries [genesisEntry, childEntry]) : Db SyncError Unit)
      (freshStore .empty) = (.ok (), headersStore) := by
    unfold headersStore
    exact Program.eq_of_fst (by decide)
  have hfirst : genesisEntry.Honest .sample forkHeaders forkHeightOf := ⟨.inl rfl, rfl, by decide⟩
  have hascends : Ascends .sample forkHeaders forkHeightOf genesisEntry.hash [childEntry] :=
    ⟨⟨.inr (.inl rfl), rfl, by decide⟩, by decide, trivial⟩
  exact .putHeaders (s := freshStore .empty) .empty (fun hzero => absurd rfl hzero) hfirst hascends hheaders

def genesisInfos : NonEmpty (HeaderInfo × BlockInfo) where
  head := (headerInfoAt .sample forkHeightOf genesis.header,
    ⟨Crypto.sample.computeTxid (sampleCoinbase 0 [⟨50, p2mrSpk⟩])⟩)
  tail := []

theorem genesisInfos_broadcast :
    (sampleHandler.connectBlock .sample genesis headersStore).1 =
      .ok (.connectBlock genesisInfos.head.1 genesisInfos.head.2) ∧
    (getBlockInfos .sample genesisHash 1 reorgStore).1 = .ok genesisInfos := by
  have hinfos : (getBlockInfos .sample genesisHash 1 reorgStore).1 = .ok genesisInfos := by decide +kernel
  obtain ⟨event, hevent⟩ : ∃ event,
      (sampleHandler.connectBlock .sample genesis headersStore).1 = .ok event := by
    have hsome : (sampleHandler.connectBlock .sample genesis headersStore).1.toOption.isSome := by
      decide
    cases hrun : (sampleHandler.connectBlock .sample genesis headersStore).1 with
    | ok event => exact ⟨event, rfl⟩
    | error e =>
        rw [hrun] at hsome
        cases hsome
  obtain ⟨hok, -⟩ := @getBlockInfos_broadcast .sample forkHeaders forkHeightOf headersStore _ [] [child] []
    genesis forkHeaders_honest forkHeights sampleHandler event reorgStore headersStore_reachable
    (Program.eq_of_fst hevent) reorgStore_reachable 1
  obtain ⟨-, hbroadcast, -⟩ := hok _ _ (Program.eq_of_fst hinfos)
  exact ⟨hevent.trans (congrArg _ hbroadcast), hinfos⟩

end Bip360Enforcer.Validator
