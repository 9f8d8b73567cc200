import Bip360Enforcer.Validator.Headers
import Bip360Enforcer.Validator.Lemmas.Live

/-!
# The tables of the chain index fit together
-/

namespace Bip360Enforcer.Validator

open Pqc (P2mrUtxoBlockDiff)

variable {C : Crypto} {headers : Set Header} {heightOf : BlockHash → Nat} {dbs dbs' : Dbs}

/-! ## Heights -/

/-- `heightOf` counts the blocks below each header of the run. -/
structure BlockHeights (C : Crypto) (headers : Set Header) (heightOf : BlockHash → Nat) : Prop where
  first : ∀ header ∈ headers, header.prevBlockhash = .allZeros → heightOf (C.blockHash header) = 0
  next : ∀ header ∈ headers, header.prevBlockhash ≠ .allZeros →
    heightOf (C.blockHash header) = heightOf header.prevBlockhash + 1

theorem BlockHeights.ne_prev (h : BlockHeights C headers heightOf) {header : Header}
    (hheader : header ∈ headers) (hprev : header.prevBlockhash ≠ .allZeros) :
    header.prevBlockhash ≠ C.blockHash header := by
  intro heq
  have hnext := h.next header hheader hprev
  rw [heq] at hnext
  omega

/-! ## The invariant -/

/-- What is stored of a block that was accepted at some time. -/
structure BlockRecord (C : Crypto) (dbs : Dbs) (blockHash : BlockHash) (header : Header) (work : Nat) :
    Prop where
  hasHeader : dbs.header.lookup blockHash = some header
  hasCoinbase : (dbs.coinbaseTxid.lookup blockHash).isSome
  hasWork : dbs.cumulativeWork.lookup blockHash = some work
  chainWork : chainWorkOf C dbs header = some work
  parent : header.prevBlockhash ≠ .allZeros → (dbs.diff.lookup header.prevBlockhash).isSome

/-- Each stored header has its parent's stored and its own height, and each stored diff is that of a
block on a chain of such blocks. -/
structure ChainIndex (C : Crypto) (headers : Set Header) (heightOf : BlockHash → Nat) (dbs : Dbs) :
    Prop where
  keyed : Keyed C headers dbs
  parent : ∀ blockHash header, dbs.header.lookup blockHash = some header →
    header.prevBlockhash ≠ .allZeros → (dbs.header.lookup header.prevBlockhash).isSome
  height : ∀ blockHash,
    dbs.height.lookup blockHash = (dbs.header.lookup blockHash).map fun _ => heightOf blockHash
  record : ∀ blockHash, (dbs.diff.lookup blockHash).isSome →
    ∃ header work, BlockRecord C dbs blockHash header work
  tip : ∀ tip, dbs.currentChainTip = some tip → (dbs.diff.lookup tip).isSome

namespace ChainIndex

theorem empty : ChainIndex C headers heightOf .empty where
  keyed _ _ h := by cases h
  parent _ _ h := by cases h
  height _ := rfl
  record _ h := by cases h
  tip _ h := by cases h

theorem lookup_height_withHeader {header : Header} {height : Nat} (blockHash : BlockHash) :
    (Validator.withHeader C header height dbs).height.lookup blockHash =
      if header.prevBlockhash ≠ .allZeros ∧ blockHash = header.prevBlockhash then some (height - 1)
      else if blockHash = C.blockHash header then some height
      else dbs.height.lookup blockHash := by
  have hinsert : (dbs.height.insert (C.blockHash header) height).lookup blockHash =
      if blockHash = C.blockHash header then some height else dbs.height.lookup blockHash := by
    split
    · rename_i heq
      rw [heq, AList.lookup_insert]
    · rename_i hne
      rw [AList.lookup_insert_ne hne]
  have hheight : (Validator.withHeader C header height dbs).height =
      if header.prevBlockhash = .allZeros then dbs.height.insert (C.blockHash header) height
      else (dbs.height.insert (C.blockHash header) height).insert header.prevBlockhash (height - 1) := rfl
  rw [hheight]
  by_cases hzero : header.prevBlockhash = .allZeros
  · rw [if_pos hzero, if_neg fun h => h.1 hzero, hinsert]
  · rw [if_neg hzero]
    by_cases hprev : blockHash = header.prevBlockhash
    · rw [if_pos ⟨hzero, hprev⟩, hprev, AList.lookup_insert]
    · rw [if_neg fun h => hprev h.2, AList.lookup_insert_ne hprev, hinsert]

/-- A header is stored on top of one that is stored, or as a first one. -/
theorem withHeader (h : ChainIndex C headers heightOf dbs) (hhashes : HonestHashes C headers)
    (hheights : BlockHeights C headers heightOf) {header : Header} (hheader : header ∈ headers)
    (hparent : header.prevBlockhash ≠ .allZeros → (dbs.header.lookup header.prevBlockhash).isSome) :
    ChainIndex C headers heightOf
      (Validator.withHeader C header (heightOf (C.blockHash header)) dbs) := by
  have hmore : MoreHeaders C headers dbs
      (Validator.withHeader C header (heightOf (C.blockHash header)) dbs) :=
    putHeader_moreHeaders hhashes h.keyed hheader
  have hkept : ∀ {blockHash}, (dbs.header.lookup blockHash).isSome →
      ((dbs.header.insert (C.blockHash header) header).lookup blockHash).isSome :=
    isSome_lookup_insert
  refine ⟨hmore.keyed, fun blockHash hd hlookup hprev => ?_, fun blockHash => ?_,
    fun blockHash hdiff => ?_, h.tip⟩
  · have hlookup : (dbs.header.insert (C.blockHash header) header).lookup blockHash = some hd := hlookup
    by_cases hk : blockHash = C.blockHash header
    · rw [hk, AList.lookup_insert, Option.some.injEq] at hlookup
      subst hlookup
      exact hkept (hparent hprev)
    · rw [AList.lookup_insert_ne hk] at hlookup
      exact hkept (h.parent blockHash hd hlookup hprev)
  · change _ = ((dbs.header.insert (C.blockHash header) header).lookup blockHash).map _
    rw [lookup_height_withHeader]
    split
    · rename_i hprev
      obtain ⟨hzero, rfl⟩ := hprev
      obtain ⟨hd, hlookup⟩ := Option.isSome_iff_exists.mp (hparent hzero)
      rw [AList.lookup_insert_ne (hheights.ne_prev hheader hzero), hlookup, hheights.next header hheader hzero]
      rfl
    · split
      · rename_i heq
        rw [heq, AList.lookup_insert]
        rfl
      · rename_i hne
        rw [AList.lookup_insert_ne hne, h.height]
  · obtain ⟨hd, work, hrecord⟩ := h.record blockHash hdiff
    exact ⟨hd, work, hmore.header _ _ hrecord.hasHeader, hrecord.hasCoinbase, hrecord.hasWork,
      hrecord.chainWork, hrecord.parent⟩

theorem headerStored (h : ChainIndex C headers heightOf dbs) (hhashes : HonestHashes C headers)
    (hheights : BlockHeights C headers heightOf) {header : Header} (hheader : header ∈ headers)
    (hstored : HeaderStored C header dbs dbs') : ChainIndex C headers heightOf dbs' := by
  cases hstored with
  | kept => exact h
  | added height absent parent first =>
      have hprev : header.prevBlockhash ≠ .allZeros →
          (dbs.header.lookup header.prevBlockhash).isSome ∧ height = heightOf (C.blockHash header) := by
        intro hzero
        obtain ⟨parentHeight, hlookup, rfl⟩ := parent hzero
        rw [h.height] at hlookup
        obtain ⟨hd, hhd, rfl⟩ := Option.map_eq_some_iff.mp hlookup
        exact ⟨by rw [hhd]; rfl, (hheights.next header hheader hzero).symm⟩
      have hheight : height = heightOf (C.blockHash header) := by
        by_cases hzero : header.prevBlockhash = .allZeros
        · rw [first hzero, hheights.first header hheader hzero]
        · exact (hprev hzero).2
      rw [hheight]
      exact h.withHeader hhashes hheights hheader fun hzero => (hprev hzero).1

/-! ## Connecting and disconnecting -/

section

variable {handler : BlockHandler} {block : Block} {height work : Nat} {coinbase : Transaction}
  {txs : List Transaction} {diff : P2mrUtxoBlockDiff} {header : Header}

/-- The tip is a stored block of the run. -/
theorem tip_header (h : ChainIndex C headers heightOf dbs) {tip : BlockHash}
    (htip : dbs.currentChainTip = some tip) :
    ∃ header ∈ headers, dbs.header.lookup tip = some header ∧ C.blockHash header = tip := by
  obtain ⟨header, work, hrecord⟩ := h.record tip (h.tip tip htip)
  obtain ⟨hmem, hhash⟩ := h.keyed tip header hrecord.hasHeader
  exact ⟨header, hmem, hrecord.hasHeader, hhash⟩

/-- A connected block becomes the tip. -/
theorem connects_tip (h : ChainIndex C headers heightOf dbs) (hhashes : HonestHashes C headers)
    (hheights : BlockHeights C headers heightOf) (hblock : block.header ∈ headers)
    (hconnects : Connects C handler block dbs dbs' height coinbase txs diff header work) :
    header = block.header ∧
    dbs' = { recordBlock (C.blockHash block.header) (C.computeTxid coinbase) work diff
        { dbs with p2mrUtxos := appliedUtxos diff dbs.p2mrUtxos } with
      currentChainTip := some (C.blockHash block.header) } := by
  have hheader : header = block.header := by
    obtain ⟨hmem, hhash⟩ := h.keyed _ _ hconnects.hasHeader
    exact hhashes.injective hmem hblock hhash
  refine ⟨hheader, hconnects.becomes_tip hheader fun tip htip => ?_⟩
  obtain ⟨tipHeader, hmem, -, rfl⟩ := h.tip_header htip
  have hnonzero := hhashes.nonzero tipHeader hmem
  have hprev : block.header.prevBlockhash = C.blockHash tipHeader := by
    rw [← hconnects.onTip, htip]
    rfl
  exact ⟨hprev ▸ hheights.ne_prev hblock (hprev ▸ hnonzero), hnonzero⟩

theorem connect (h : ChainIndex C headers heightOf dbs) (hhashes : HonestHashes C headers)
    (hheights : BlockHeights C headers heightOf) (hblock : block.header ∈ headers)
    (hconnects : Connects C handler block dbs dbs' height coinbase txs diff header work) :
    ChainIndex C headers heightOf dbs' := by
  obtain ⟨rfl, rfl⟩ := h.connects_tip hhashes hheights hblock hconnects
  have hdiff : ∀ {blockHash}, (dbs.diff.lookup blockHash).isSome →
      ((dbs.diff.insert (C.blockHash block.header) diff).lookup blockHash).isSome := isSome_lookup_insert
  -- A block that is connected again has the work that it had before.
  have hsame : ∀ blockHash w, dbs.cumulativeWork.lookup blockHash = some w →
      (dbs.diff.lookup blockHash).isSome →
      (dbs.cumulativeWork.insert (C.blockHash block.header) work).lookup blockHash = some w := by
    intro blockHash w hw hdiff
    by_cases hk : blockHash = C.blockHash block.header
    · subst hk
      obtain ⟨hd, w', hrecord⟩ := h.record _ hdiff
      obtain rfl := Option.some.inj (hrecord.hasHeader.symm.trans hconnects.hasHeader)
      rw [AList.lookup_insert, ← hconnects.hasWork, hrecord.chainWork, ← hrecord.hasWork, hw]
    · rw [AList.lookup_insert_ne hk, hw]
  have hchain : ∀ hd w, chainWorkOf C dbs hd = some w →
      (hd.prevBlockhash ≠ .allZeros → (dbs.diff.lookup hd.prevBlockhash).isSome) →
      chainWorkOf C (recordBlock (C.blockHash block.header) (C.computeTxid coinbase) work diff dbs) hd =
        some w := by
    intro hd w hw hparent
    by_cases hzero : hd.prevBlockhash = .allZeros
    · rw [chainWorkOf, if_pos hzero] at hw ⊢
      exact hw
    · rw [chainWorkOf, if_neg hzero] at hw ⊢
      obtain ⟨parentWork, hlookup, rfl⟩ := Option.map_eq_some_iff.mp hw
      change ((dbs.cumulativeWork.insert (C.blockHash block.header) work).lookup
        hd.prevBlockhash).map _ = _
      rw [hsame _ _ hlookup (hparent hzero)]
      rfl
  have hparent : block.header.prevBlockhash ≠ .allZeros →
      (dbs.diff.lookup block.header.prevBlockhash).isSome := by
    intro hzero
    cases htip : dbs.currentChainTip with
    | none =>
        have honTip := hconnects.onTip
        rw [htip] at honTip
        exact absurd honTip.symm hzero
    | some tip =>
        have honTip := hconnects.onTip
        rw [htip] at honTip
        have heq : tip = block.header.prevBlockhash := honTip
        exact heq ▸ h.tip tip htip
  refine ⟨h.keyed, h.parent, h.height, fun blockHash hrecorded => ?_, fun tip htip => ?_⟩
  · by_cases hk : blockHash = C.blockHash block.header
    · subst hk
      refine ⟨block.header, work, hconnects.hasHeader, ?_, AList.lookup_insert _,
        hchain _ _ hconnects.hasWork hparent, fun hzero => hdiff (hparent hzero)⟩
      change ((dbs.coinbaseTxid.insert _ _).lookup _).isSome
      rw [AList.lookup_insert]
      rfl
    · have hold : (dbs.diff.lookup blockHash).isSome := by
        have hnew : ((dbs.diff.insert (C.blockHash block.header) diff).lookup blockHash).isSome := hrecorded
        rwa [AList.lookup_insert_ne hk] at hnew
      obtain ⟨hd, w, hrecord⟩ := h.record blockHash hold
      exact ⟨hd, w, hrecord.hasHeader, isSome_lookup_insert hrecord.hasCoinbase,
        hsame _ _ hrecord.hasWork hold, hchain _ _ hrecord.chainWork hrecord.parent,
        fun hzero => hdiff (hrecord.parent hzero)⟩
  · obtain rfl : C.blockHash block.header = tip := Option.some.inj htip
    change ((dbs.diff.insert (C.blockHash block.header) diff).lookup _).isSome
    rw [AList.lookup_insert]
    rfl

theorem disconnect {blockHash : BlockHash} (h : ChainIndex C headers heightOf dbs)
    (hdisconnects : Disconnects blockHash dbs dbs' diff header) :
    ChainIndex C headers heightOf dbs' := by
  obtain rfl := hdisconnects.result
  refine ⟨h.keyed, h.parent, h.height, fun other hdiff => ?_, fun tip htip => ?_⟩
  · obtain ⟨hd, w, hrecord⟩ := h.record other hdiff
    exact ⟨hd, w, hrecord.hasHeader, hrecord.hasCoinbase, hrecord.hasWork, hrecord.chainWork,
      hrecord.parent⟩
  · obtain ⟨hd, w, hrecord⟩ := h.record blockHash (by rw [hdisconnects.hasDiff]; rfl)
    obtain rfl := Option.some.inj (hrecord.hasHeader.symm.trans hdisconnects.hasHeader)
    have htip : BlockHandler.tipBefore hd.prevBlockhash = some tip := htip
    unfold BlockHandler.tipBefore at htip
    split at htip
    · rename_i hzero
      obtain rfl := Option.some.inj htip
      exact hrecord.parent hzero
    · cases htip

end

end ChainIndex

end Bip360Enforcer.Validator
