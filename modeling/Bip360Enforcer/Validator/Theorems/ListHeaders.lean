import Bip360Enforcer.Validator.Lemmas.Ancestry
import Bip360Enforcer.Validator.Theorems.HeaderSync

/-!
# The list of stored headers
-/

namespace Bip360Enforcer.Validator

variable {C : Crypto} {headers : Set Header} {heightOf : BlockHash → Nat} {dbs : Dbs} {s t : Store}
  {startHeight : Nat}

/-- The listed headers are those of one chain, that of the tip, in ascending order. -/
structure OneChain (dbs : Dbs) (res : List (Nat × BlockHash)) : Prop where
  ascending : res.Pairwise fun entry other => entry.1 < other.1
  onChain : ∀ entry ∈ res, OnChain dbs entry.2

/-! ## What is listed -/

theorem mem_headersFrom {height : Nat} {blockHash : BlockHash} :
    (height, blockHash) ∈ headersFrom dbs startHeight ↔
      startHeight ≤ height ∧ dbs.height.lookup blockHash = some height := by
  rw [headersFrom, List.mem_insertionSort, List.mem_filterMap]
  constructor
  · rintro ⟨entry, hentry, heq⟩
    split at heq
    · rename_i hle
      cases heq
      exact ⟨hle, AList.mem_lookup_iff.mpr ((List.mem_insertionSort _).mp hentry)⟩
    · cases heq
  · rintro ⟨hle, hlookup⟩
    exact ⟨⟨blockHash, height⟩, (List.mem_insertionSort _).mpr (AList.mem_lookup_iff.mp hlookup), if_pos hle⟩

/-- Each block is listed once. -/
theorem headersFrom_distinct :
    (headersFrom dbs startHeight).Pairwise fun entry other => entry.2 ≠ other.2 := by
  have hkeys : (iter dbs.height).Pairwise fun entry other => entry.1 ≠ other.1 :=
    ((List.perm_insertionSort _ _).pairwise_iff fun hne => Ne.symm hne).mpr
      (List.nodupKeys_iff_pairwise.mp dbs.height.nodupKeys)
  refine ((List.perm_insertionSort _ _).pairwise_iff fun hne => Ne.symm hne).mpr ?_
  refine List.pairwise_filterMap.mpr (hkeys.imp fun hne b hb b' hb' => ?_)
  split at hb
  · split at hb'
    · cases hb
      cases hb'
      exact hne
    · cases hb'
  · cases hb

theorem headersFrom_sorted :
    (headersFrom dbs startHeight).Pairwise fun entry other => entry.1 ≤ other.1 := by
  have htotal : Std.Total fun entry other : Nat × BlockHash => entry.1 ≤ other.1 :=
    ⟨fun entry other => Nat.le_total entry.1 other.1⟩
  have htrans : IsTrans (Nat × BlockHash) fun entry other => entry.1 ≤ other.1 :=
    ⟨fun _ _ _ => Nat.le_trans⟩
  exact List.pairwise_insertionSort _ _

/-! ## One chain -/

/-- The list is that of the tip's chain exactly where nothing else is stored at these heights. -/
theorem listHeaders_oneChain_iff (hhashes : HonestHashes C headers)
    (hheights : BlockHeights C headers heightOf) (hreached : IndexRun C headers heightOf s)
    {res : List (Nat × BlockHash)} (hrun : listHeaders startHeight s = (.ok res, t)) :
    OneChain s.dbs res ↔ ∀ blockHash height, s.dbs.height.lookup blockHash = some height →
      startHeight ≤ height → OnChain s.dbs blockHash := by
  have hres : res = headersFrom s.dbs startHeight := by
    have hspec : Spec (listHeaders startHeight) s.dbs (fun res _ => res = headersFrom s.dbs startHeight)
        (fun _ _ => True) fun _ => True :=
      Spec.bind (Spec.access trivial (Spec.read trivial rfl))
    exact (hspec.ok hrun).2
  subst hres
  have hforest := (hreached.chainIndex hhashes hheights).forest hhashes hheights
  have hindex := hreached.chainIndex hhashes hheights
  constructor
  · intro hone blockHash height hlookup hle
    exact hone.onChain (height, blockHash) (mem_headersFrom.mpr ⟨hle, hlookup⟩)
  · intro hall
    have hchain : ∀ entry ∈ headersFrom s.dbs startHeight, OnChain s.dbs entry.2 := by
      intro entry hentry
      obtain ⟨hle, hlookup⟩ := mem_headersFrom.mp hentry
      exact hall _ _ hlookup hle
    have hlevel : ∀ entry ∈ headersFrom s.dbs startHeight, levelOf s.dbs entry.2 = entry.1 + 1 := by
      intro entry hentry
      obtain ⟨-, hlookup⟩ := mem_headersFrom.mp hentry
      rw [levelOf, hlookup]
      rw [hindex.height] at hlookup
      obtain ⟨header, hheader, -⟩ := Option.map_eq_some_iff.mp hlookup
      rw [hheader]
      rfl
    refine ⟨List.Pairwise.imp_of_mem ?_ (headersFrom_sorted.and headersFrom_distinct), hchain⟩
    rintro entry other hentry hother ⟨hle, hne⟩
    refine Nat.lt_of_le_of_ne hle fun heq => hne ?_
    exact (hchain entry hentry).eq_of_height hforest (hchain other hother)
      (by rw [hlevel entry hentry, hlevel other hother, heq])

/-! A chain of two blocks is connected; then the header of a block beside the second one is fetched. -/

def sibling : Block := ⟨sampleHeader (sampleHash 1) 2, [sampleCoinbase 2 []]⟩

def siblingHash : BlockHash := Crypto.sample.blockHash sibling.header

def siblingEntry : RestHeader := ⟨sibling.header, siblingHash, 1⟩

def forkHeaders : Set Header := {genesis.header, child.header, sibling.header}

def forkHeightOf (blockHash : BlockHash) : Nat :=
  if blockHash = childHash ∨ blockHash = siblingHash then 1 else 0

/-- The node whose chain is the first block and `second`. -/
def forkSource (second : RestHeader) : HeaderSource where
  getblockheader _ := .ok 1
  getblockhash _ height :=
    if height = 0 then .ok genesisHash
    else if height = 1 then .ok second.hash
    else .error (.jsonRpc "getblockhash")
  getBlockHeaders := [restAnswer [genesisEntry, second]]

theorem forkHeaders_honest : HonestHashes .sample forkHeaders where
  injective := by
    have h : ∀ a ∈ [genesis.header, child.header, sibling.header],
        ∀ b ∈ [genesis.header, child.header, sibling.header],
        Crypto.sample.blockHash a = Crypto.sample.blockHash b → a = b := by decide
    intro a ha b hb
    exact h a (by simpa [forkHeaders] using ha) b (by simpa [forkHeaders] using hb)
  nonzero := by
    rintro header (rfl | rfl | rfl)
    · decide
    · decide
    · decide

theorem forkHeights : BlockHeights .sample forkHeaders forkHeightOf where
  first := by
    rintro header (rfl | rfl | rfl)
    · decide
    · decide
    · decide
  next := by
    rintro header (rfl | rfl | rfl)
    · decide
    · decide
    · decide

theorem forkSource_honest {second : RestHeader} (h : second = childEntry ∨ second = siblingEntry) :
    HonestHeaders .sample forkHeaders forkHeightOf (forkSource second) where
  blockHash := by
    intro n height hash hanswer
    simp only [forkSource] at hanswer
    split_ifs at hanswer with hzero hone
    · obtain rfl := Except.ok.inj hanswer
      rw [hzero]
      decide
    · obtain rfl := Except.ok.inj hanswer
      rw [hone]
      rcases h with rfl | rfl
      · decide
      · decide
  answers := by
    intro answer hanswer hash count first rest hrun
    obtain rfl := List.mem_singleton.mp hanswer
    have hgenesis : genesisEntry.Honest .sample forkHeaders forkHeightOf :=
      ⟨.inl rfl, rfl, by decide⟩
    have hchain : Ascends .sample forkHeaders forkHeightOf .allZeros [genesisEntry, second] := by
      rcases h with rfl | rfl
      · exact ⟨hgenesis, rfl, ⟨.inr (.inl rfl), rfl, by decide⟩, by decide, trivial⟩
      · exact ⟨hgenesis, rfl, ⟨.inr (.inr rfl), rfl, by decide⟩, by decide, trivial⟩
    exact restAnswer_honest hchain hrun

def fetchedStore : Store :=
  (syncHeaders (forkSource childEntry) .sample childHash (freshStore .empty)).2

def connectedStore : Store := (sampleHandler.connectBatch .sample [genesis, child] fetchedStore).2

def forkedStore : Store := (syncHeaders (forkSource siblingEntry) .sample siblingHash connectedStore).2

theorem connectedStore_run : IndexRun .sample forkHeaders forkHeightOf connectedStore := by
  have hsync : syncHeaders (forkSource childEntry) .sample childHash (freshStore .empty) =
      (.ok (), fetchedStore) := by
    unfold fetchedStore
    exact Program.eq_of_fst (by decide)
  have hbatch : sampleHandler.connectBatch .sample [genesis, child] fetchedStore =
      (.ok none, connectedStore) := by
    unfold connectedStore
    exact Program.eq_of_fst (by decide +kernel)
  have hstart : IndexRun .sample forkHeaders forkHeightOf (freshStore .empty) := .start
  refine .batch (.syncHeaders hstart (forkSource_honest (.inl rfl)) hsync) ?_ hbatch
  intro block hblock
  rcases List.mem_pair.mp hblock with rfl | rfl
  · exact .inl rfl
  · exact .inr (.inl rfl)

theorem forkedStore_run : IndexRun .sample forkHeaders forkHeightOf forkedStore := by
  have hsync : syncHeaders (forkSource siblingEntry) .sample siblingHash connectedStore =
      (.ok (), forkedStore) := by
    unfold forkedStore
    exact Program.eq_of_fst (by decide +kernel)
  exact .syncHeaders connectedStore_run (forkSource_honest (.inr rfl)) hsync

theorem connectedStore_listHeaders :
    (listHeaders 0 connectedStore).1 = .ok [(0, genesisHash), (1, childHash)] ∧
    OneChain connectedStore.dbs [(0, genesisHash), (1, childHash)] := by
  obtain ⟨hrun, hentries, htip, hchild⟩ :
      (listHeaders 0 connectedStore).1 = .ok [(0, genesisHash), (1, childHash)] ∧
      connectedStore.dbs.height.entries = [⟨genesisHash, 0⟩, ⟨childHash, 1⟩] ∧
      connectedStore.dbs.currentChainTip = some childHash ∧
      connectedStore.dbs.header.lookup childHash = some child.header := by decide +kernel
  refine ⟨hrun, (listHeaders_oneChain_iff forkHeaders_honest forkHeights connectedStore_run
    (Program.eq_of_fst hrun)).mpr fun blockHash height hlookup _ => ?_⟩
  have hmem := AList.mem_lookup_iff.mp hlookup
  rw [hentries] at hmem
  rcases List.mem_pair.mp hmem with heq | heq
  · cases heq
    have hparent : child.header.prevBlockhash = genesisHash := by decide
    exact hparent ▸ .parent (.tip htip) hchild (by decide)
  · cases heq
    exact .tip htip

/-- After the fork, two headers of height 1 are listed. -/
theorem forkedStore_listHeaders :
    HonestHashes .sample forkHeaders ∧ BlockHeights .sample forkHeaders forkHeightOf ∧
    IndexRun .sample forkHeaders forkHeightOf forkedStore ∧
    (listHeaders 0 forkedStore).1 = .ok [(0, genesisHash), (1, childHash), (1, siblingHash)] ∧
    ¬ OneChain forkedStore.dbs [(0, genesisHash), (1, childHash), (1, siblingHash)] := by
  refine ⟨forkHeaders_honest, forkHeights, forkedStore_run, by decide +kernel, fun hone => ?_⟩
  have hascending := hone.ascending
  revert hascending
  decide

end Bip360Enforcer.Validator
