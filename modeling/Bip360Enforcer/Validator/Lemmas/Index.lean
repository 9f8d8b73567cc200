import Bip360Enforcer.Validator.Index
import Bip360Enforcer.Validator.Lemmas.Disconnect

/-!
# The index of the active chain is kept
-/

namespace Bip360Enforcer.Validator

open Pqc (P2mrUtxoBlockDiff)

variable {C : Crypto} {headers : Set Header} {dbs dbs' : Dbs} {hashes : List BlockHash}

/-! ## Suffixes -/

theorem suffix_cons {α : Type} {x y : α} {xs ys : List α} (h : x :: xs <:+ y :: ys) :
    (x = y ∧ xs = ys) ∨ x :: xs <:+ ys := by
  rcases List.suffix_cons_iff.mp h with h | h
  · exact .inl (List.cons_eq_cons.mp h)
  · exact .inr h

theorem suffix_mem {α : Type} {x : α} {xs ys : List α} (h : x :: xs <:+ ys) : x ∈ ys :=
  h.subset (by simp)

/-! ## Headers -/

theorem putHeader_spec {ε : Type} [FromDb ε] {header : Header} {height : Nat} {fault : ε → Prop}
    {failed : ε → Dbs → Prop} (hfault : fault (fromDb .io)) :
    Spec (putHeader C header height) dbs (fun _ d => d = { dbs with
      header := dbs.header.insert (C.blockHash header) header
      height := if header.prevBlockhash = .allZeros then dbs.height.insert (C.blockHash header) height
        else (dbs.height.insert (C.blockHash header) height).insert header.prevBlockhash (height - 1) })
      failed fault := by
  refine Spec.bind (Spec.write hfault (Spec.bind (Spec.write hfault ?_)))
  refine Spec.ite (fun hzero => Spec.write hfault ?_) fun hzero => Spec.pure ?_
  · rw [if_neg hzero]
  · rw [if_pos (not_not.mp hzero)]

/-- What is stored of the blocks does not change, but for headers and heights that are added. -/
structure MoreHeaders (C : Crypto) (headers : Set Header) (dbs dbs' : Dbs) : Prop where
  rest : ∃ header height, dbs' = { dbs with header := header, height := height }
  header : ∀ blockHash header, dbs.header.lookup blockHash = some header →
    dbs'.header.lookup blockHash = some header
  height : ∀ blockHash, (dbs.height.lookup blockHash).isSome → (dbs'.height.lookup blockHash).isSome
  keyed : ∀ blockHash header, dbs'.header.lookup blockHash = some header →
    header ∈ headers ∧ C.blockHash header = blockHash

/-- Every stored header is one of the run, under its own hash. -/
def Keyed (C : Crypto) (headers : Set Header) (dbs : Dbs) : Prop :=
  ∀ blockHash header, dbs.header.lookup blockHash = some header →
    header ∈ headers ∧ C.blockHash header = blockHash

theorem MoreHeaders.refl (h : Keyed C headers dbs) : MoreHeaders C headers dbs dbs :=
  ⟨⟨dbs.header, dbs.height, rfl⟩, fun _ _ h => h, fun _ h => h, h⟩

theorem MoreHeaders.trans {dbs'' : Dbs} (h : MoreHeaders C headers dbs dbs')
    (h' : MoreHeaders C headers dbs' dbs'') : MoreHeaders C headers dbs dbs'' := by
  obtain ⟨header, height, rfl⟩ := h.rest
  obtain ⟨header', height', rfl⟩ := h'.rest
  exact ⟨⟨header', height', rfl⟩, fun b hd hb => h'.header b hd (h.header b hd hb),
    fun b hb => h'.height b (h.height b hb), h'.keyed⟩

theorem isSome_lookup_insert {υ : Type} {m : HashDb υ} {key key' : BlockHash} {v : υ}
    (h : (m.lookup key).isSome) : ((m.insert key' v).lookup key).isSome := by
  by_cases hk : key = key'
  · subst hk; simp
  · rwa [AList.lookup_insert_ne hk]

theorem putHeader_moreHeaders (hhashes : HonestHashes C headers) (hkeyed : Keyed C headers dbs)
    {header : Header} (hheader : header ∈ headers) {height : Nat} :
    MoreHeaders C headers dbs { dbs with
      header := dbs.header.insert (C.blockHash header) header
      height := if header.prevBlockhash = .allZeros then dbs.height.insert (C.blockHash header) height
        else (dbs.height.insert (C.blockHash header) height).insert header.prevBlockhash
          (height - 1) } := by
  refine ⟨⟨_, _, rfl⟩, fun b hd hb => ?_, fun b hb => ?_, fun b hd hb => ?_⟩
  · by_cases hk : b = C.blockHash header
    · subst hk
      obtain ⟨hd_mem, hd_hash⟩ := hkeyed _ _ hb
      rw [hhashes.injective hheader hd_mem hd_hash.symm]
      exact AList.lookup_insert _
    · exact (AList.lookup_insert_ne hk).trans hb
  · change ((if header.prevBlockhash = .allZeros then _ else _ : HashDb Nat).lookup b).isSome
    split
    · exact isSome_lookup_insert hb
    · exact isSome_lookup_insert (isSome_lookup_insert hb)
  · by_cases hk : b = C.blockHash header
    · subst hk
      obtain rfl : header = hd := by simpa using hb
      exact ⟨hheader, rfl⟩
    · exact hkeyed b hd (by simpa [AList.lookup_insert_ne hk] using hb)

theorem putHeaders_spec {ε : Type} [FromDb ε] (hhashes : HonestHashes C headers)
    (hkeyed : Keyed C headers dbs) {stored : List (Header × Nat)}
    (hstored : ∀ entry ∈ stored, entry.1 ∈ headers) {fault : ε → Prop} {failed : ε → Dbs → Prop}
    (hfault : fault (fromDb .io)) :
    Spec (putHeaders C stored) dbs (fun _ d => MoreHeaders C headers dbs d) failed fault := by
  refine Spec.forM (fun _ d => MoreHeaders C headers dbs d) (.refl hkeyed) ?_
  rintro done ⟨header, height⟩ rest d hsplit hmore
  have hheader : header ∈ headers := hstored (header, height) (by rw [← hsplit]; simp)
  refine (putHeader_spec hfault).mono ?_ (fun _ _ h => h) fun _ h => h
  rintro - d' rfl
  exact hmore.trans (putHeader_moreHeaders hhashes hmore.keyed hheader)

theorem Indexed.moreHeaders (h : Indexed C headers dbs hashes) (hmore : MoreHeaders C headers dbs dbs') :
    Indexed C headers dbs' hashes := by
  obtain ⟨header, height, rfl⟩ := hmore.rest
  refine ⟨h.tip, fun b below hb => ?_, h.nodup, hmore.keyed⟩
  have hentry := h.entry b below hb
  obtain ⟨hd, hlookup, hprev⟩ := hentry.header
  exact ⟨⟨hd, hmore.header b hd hlookup, hprev⟩, hentry.nonzero, hmore.height b hentry.height,
    hentry.work, hentry.diff⟩

/-! ## Connecting -/

variable {handler : BlockHandler} {block : Block} {height work : Nat} {coinbase : Transaction}
  {txs : List Transaction} {diff : P2mrUtxoBlockDiff} {header : Header}

theorem Indexed.header_eq (h : Indexed C headers dbs hashes) (hhashes : HonestHashes C headers)
    (hblock : block.header ∈ headers)
    (hlookup : dbs.header.lookup (C.blockHash block.header) = some header) : header = block.header := by
  obtain ⟨hmem, hhash⟩ := h.keyed _ _ hlookup
  exact hhashes.injective hmem hblock hhash

/-- A block on top of the tip is not on the chain already. -/
theorem Indexed.notMem (h : Indexed C headers dbs hashes) (hhashes : HonestHashes C headers)
    (hblock : block.header ∈ headers)
    (hprev : dbs.currentChainTip.getD .allZeros = block.header.prevBlockhash) :
    C.blockHash block.header ∉ hashes := by
  intro hin
  obtain ⟨above, below, hsplit⟩ := List.append_of_mem hin
  have hsuffix : C.blockHash block.header :: below <:+ hashes := ⟨above, hsplit.symm⟩
  obtain ⟨hd, hlookup, hbelow⟩ := (h.entry _ _ hsuffix).header
  rw [h.header_eq hhashes hblock hlookup, ← hprev, h.tip] at hbelow
  cases hashes with
  | nil => cases hin
  | cons top rest =>
      have htop := (h.entry top rest (List.suffix_refl _)).nonzero
      have hmem : top ∈ below := by
        cases below with
        | nil => exact absurd hbelow htop
        | cons b below =>
            obtain rfl : top = b := hbelow
            simp
      have hrest : below <:+ rest := by
        rcases suffix_cons hsuffix with ⟨-, rfl⟩ | hs
        · exact List.suffix_refl _
        · exact (List.suffix_cons _ _).trans hs
      exact (List.nodup_cons.mp h.nodup).1 (hrest.subset hmem)

/-- A connected block becomes the tip: the work of the chain grows with each block. -/
theorem Connects.becomes_tip
    (hconnects : Connects C handler block dbs dbs' height coinbase txs diff header work)
    (hheader : header = block.header)
    (htips : ∀ tip, dbs.currentChainTip = some tip → tip ≠ C.blockHash block.header ∧ tip ≠ .allZeros) :
    dbs' = { recordBlock (C.blockHash block.header) (C.computeTxid coinbase) work diff
        { dbs with p2mrUtxos := appliedUtxos diff dbs.p2mrUtxos } with
      currentChainTip := some (C.blockHash block.header) } := by
  obtain ⟨recorded, tipWork, rfl, htipWork, hdbs'⟩ := hconnects.recorded
  suffices hmore : BlockHandler.hasMoreWork work tipWork = true by rw [hdbs', if_pos hmore]
  cases htip : dbs.currentChainTip with
  | none =>
      obtain rfl : tipWork = none := by simpa [htip] using htipWork
      rfl
  | some tip =>
      obtain ⟨hne, hnonzero⟩ := htips tip htip
      have hprev : block.header.prevBlockhash = tip := by
        rw [← hconnects.onTip, htip]
        rfl
      have hwork := hconnects.hasWork
      rw [hheader, chainWorkOf, hprev, if_neg hnonzero] at hwork
      obtain ⟨parentWork, hparent, rfl⟩ := Option.map_eq_some_iff.mp hwork
      have hlookup : tipWork = some parentWork := by
        rw [htip] at htipWork
        cases tipWork with
        | none => cases htipWork
        | some w =>
            have hw : (dbs.cumulativeWork.insert (C.blockHash block.header)
                (parentWork + C.work block.header)).lookup tip = some w := by
              simpa [recordBlock] using htipWork
            rw [AList.lookup_insert_ne hne, hparent] at hw
            exact hw.symm
      rw [hlookup]
      simp [BlockHandler.hasMoreWork, C.work_pos]

theorem Connects.tip (hconnects : Connects C handler block dbs dbs' height coinbase txs diff header work)
    (h : Indexed C headers dbs hashes) (hhashes : HonestHashes C headers)
    (hblock : block.header ∈ headers) :
    dbs' = { recordBlock (C.blockHash block.header) (C.computeTxid coinbase) work diff
        { dbs with p2mrUtxos := appliedUtxos diff dbs.p2mrUtxos } with
      currentChainTip := some (C.blockHash block.header) } := by
  refine hconnects.becomes_tip (h.header_eq hhashes hblock hconnects.hasHeader) fun tip htip => ⟨?_, ?_⟩
  · rintro rfl
    have hin := h.tip.symm.trans htip
    exact h.notMem hhashes hblock hconnects.onTip (List.mem_of_mem_head? hin)
  · have hhead := h.tip.symm.trans htip
    cases hashes with
    | nil => cases hhead
    | cons top rest =>
        obtain rfl : top = tip := by simpa using hhead
        exact (h.entry top rest (List.suffix_refl _)).nonzero

theorem Indexed.connect (h : Indexed C headers dbs hashes) (hhashes : HonestHashes C headers)
    (hblock : block.header ∈ headers)
    (hconnects : Connects C handler block dbs dbs' height coinbase txs diff header work) :
    Indexed C headers dbs' (C.blockHash block.header :: hashes) := by
  have hnotin := h.notMem hhashes hblock hconnects.onTip
  have hdbs' := hconnects.tip h hhashes hblock
  subst hdbs'
  refine ⟨rfl, fun b below hb => ?_, List.nodup_cons.mpr ⟨hnotin, h.nodup⟩, h.keyed⟩
  rcases suffix_cons hb with ⟨rfl, rfl⟩ | hb
  · refine ⟨⟨header, hconnects.hasHeader, ?_⟩, hhashes.nonzero _ hblock, ?_, ?_, ?_⟩
    · rw [h.header_eq hhashes hblock hconnects.hasHeader, ← hconnects.onTip, h.tip]
    · exact Option.isSome_iff_exists.mpr ⟨height, hconnects.hasHeight⟩
    · simp [recordBlock]
    · simp [recordBlock]
  · have hentry := h.entry b below hb
    exact ⟨hentry.header, hentry.nonzero, hentry.height, isSome_lookup_insert hentry.work,
      isSome_lookup_insert hentry.diff⟩

/-! ## Disconnecting -/

theorem Indexed.disconnect {blockHash : BlockHash} (h : Indexed C headers dbs (blockHash :: hashes))
    (hdisconnects : Disconnects blockHash dbs dbs' diff header) : Indexed C headers dbs' hashes := by
  obtain rfl := hdisconnects.result
  obtain ⟨hd, hlookup, hprev⟩ := (h.entry blockHash hashes (List.suffix_refl _)).header
  obtain rfl : header = hd := Option.some.inj (hdisconnects.hasHeader.symm.trans hlookup)
  refine ⟨?_, fun b below hb => ?_, (List.nodup_cons.mp h.nodup).2, h.keyed⟩
  · change BlockHandler.tipBefore header.prevBlockhash = hashes.head?
    rw [hprev]
    cases hashes with
    | nil => rfl
    | cons top rest =>
        have htop := (h.entry top rest (List.suffix_cons _ _)).nonzero
        exact if_pos htop
  · have hentry := h.entry b below (hb.trans (List.suffix_cons _ _))
    exact ⟨hentry.header, hentry.nonzero, hentry.height, hentry.work, hentry.diff⟩

/-- The tip can always be disconnected. -/
theorem Indexed.not_stuck {blockHash : BlockHash} (h : Indexed C headers dbs (blockHash :: hashes)) :
    ¬ Stuck blockHash dbs := by
  rintro ⟨-, hlacks⟩
  have hentry := h.entry blockHash hashes (List.suffix_refl _)
  rcases hlacks with ⟨tip, htip, hne⟩ | hheader | hheight
  · rw [h.tip] at htip
    exact hne (by simpa using htip.symm)
  · obtain ⟨hd, hlookup, -⟩ := hentry.header
    rw [hheader] at hlookup
    cases hlookup
  · have := hentry.height
    rw [hheight] at this
    cases this

end Bip360Enforcer.Validator
