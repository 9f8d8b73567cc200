import Bip360Enforcer.Pqc.Lemmas.Supply
import Bip360Enforcer.Validator.Theorems.DryRun

/-!
# Which outputs the prefetch misses
-/

namespace Bip360Enforcer.Validator

open Pqc (Bip360Activation Clock CoreBlock PqcValidationError TracksP2mr Unresolved blockLookups
  outpoints validateAndDiffBlockTransactions validateAndDiff_knows validateAndDiff_stops)

variable {C : Crypto} {validator : Validator} {block : Block} {utxos chainP2mr : PrevoutMap}
  {answer : GbBlock}

/-! ## The answer of the node -/

/-- The outputs that the answer gives. -/
def GbBlock.prevouts (answer : GbBlock) : List (OutPoint × TxOut) :=
  (answer.tx.flatMap GbTx.vin).filterMap GbVin.resolve

/-- Of the outputs of the chain that the block spends, the answer gives every one, and as it is. -/
structure GbBlock.Truthful (utxos : PrevoutMap) (block : Block) (answer : GbBlock) : Prop where
  complete : ∀ tx ∈ block.txdata.drop 1, ∀ input ∈ tx.input,
    ∀ txout ∈ utxos.lookup input.previousOutput, (input.previousOutput, txout) ∈ answer.prevouts
  sound : ∀ e ∈ answer.prevouts, ∀ txout ∈ utxos.lookup e.1, e.2 = txout

/-- Keep an output of the answer, if it is wanted. -/
def keepWanted (wanted : List OutPoint) (resolved : PrevoutMap) (e : OutPoint × TxOut) : PrevoutMap :=
  if e.1 ∈ wanted then resolved.insert e.1 e.2 else resolved

theorem GbBlock.resolve_eq (answer : GbBlock) (wanted : List OutPoint) :
    answer.resolve wanted = answer.prevouts.foldl (keepWanted wanted) ∅ := by
  rw [GbBlock.prevouts, List.foldl_filterMap, GbBlock.resolve]
  congr 1
  funext resolved vin
  cases vin.resolve with
  | none => rfl
  | some e => rfl

section

variable {wanted : List OutPoint} {op : OutPoint} {txout : TxOut}

theorem lookup_foldl_keepWanted {entries : List (OutPoint × TxOut)} {resolved : PrevoutMap}
    (h : (entries.foldl (keepWanted wanted) resolved).lookup op = some txout) :
    resolved.lookup op = some txout ∨ (op ∈ wanted ∧ (op, txout) ∈ entries) := by
  induction entries generalizing resolved with
  | nil => exact .inl h
  | cons e entries ih =>
      rcases ih h with h | ⟨hop, hin⟩
      · unfold keepWanted at h
        split at h
        · by_cases hsame : op = e.1
          · subst hsame
            obtain rfl : e.2 = txout := by simpa using h
            exact .inr ⟨‹_›, List.mem_cons_self⟩
          · exact .inl (by simpa [AList.lookup_insert_ne hsame] using h)
        · exact .inl h
      · exact .inr ⟨hop, List.mem_cons_of_mem _ hin⟩

theorem mem_foldl_keepWanted {entries : List (OutPoint × TxOut)} {resolved : PrevoutMap}
    (hop : op ∈ wanted) (h : op ∈ resolved ∨ (op, txout) ∈ entries) :
    op ∈ entries.foldl (keepWanted wanted) resolved := by
  induction entries generalizing resolved with
  | nil => exact h.resolve_right List.not_mem_nil
  | cons e entries ih =>
      apply ih
      rcases h with h | h
      · left
        unfold keepWanted
        split
        · exact (AList.mem_insert _).mpr (.inr h)
        · exact h
      · rcases List.mem_cons.mp h with rfl | h
        · left
          rw [keepWanted, if_pos hop]
          exact (AList.mem_insert _).mpr (.inl rfl)
        · exact .inr h

theorem GbBlock.lookup_resolve (h : (answer.resolve wanted).lookup op = some txout) :
    op ∈ wanted ∧ (op, txout) ∈ answer.prevouts := by
  rw [GbBlock.resolve_eq] at h
  exact (lookup_foldl_keepWanted h).resolve_left (by simp)

theorem GbBlock.mem_resolve (hop : op ∈ wanted) (h : (op, txout) ∈ answer.prevouts) :
    op ∈ answer.resolve wanted := by
  rw [GbBlock.resolve_eq]
  exact mem_foldl_keepWanted hop (.inr h)

end

/-! ## What is prefetched -/

theorem mem_wantedOutpoints {op : OutPoint} : op ∈ wantedOutpoints C chainP2mr block ↔
    ∃ tx ∈ block.txdata.drop 1, needsPrefetch C chainP2mr tx = true ∧
      op ∈ tx.input.map TxIn.previousOutput ∧ op ∉ chainP2mr ∧ op ∉ sameBlockOutpoints C block := by
  simp only [wantedOutpoints, List.mem_flatMap]
  constructor
  · rintro ⟨tx, htx, hop⟩
    split at hop
    · obtain ⟨hin, hnot⟩ := List.mem_filter.mp hop
      exact ⟨tx, htx, ‹_›, hin, by simpa using hnot⟩
    · cases hop
  · rintro ⟨tx, htx, hneeds, hin, hnot⟩
    refine ⟨tx, htx, ?_⟩
    rw [if_pos hneeds]
    exact List.mem_filter.mpr ⟨hin, by simpa using hnot⟩

theorem sameBlockOutpoints_eq : sameBlockOutpoints C block = outpoints C block.txdata := by
  rw [sameBlockOutpoints, outpoints, List.map_flatMap]

theorem prefetchedPrevouts_eq (hanswer : validator.getblock (C.blockHash block.header) = some answer) :
    validator.prefetchedPrevouts C chainP2mr block =
      answer.resolve (wantedOutpoints C chainP2mr block) := by
  unfold Validator.prefetchedPrevouts
  rw [hanswer]
  dsimp only
  split
  · rename_i hempty
    rw [List.isEmpty_iff.mp hempty, GbBlock.resolve_eq]
    exact (List.foldl_fixed' (fun _ => if_neg List.not_mem_nil) _).symm
  · rfl

theorem wanted_unspent (hcore : CoreBlock C utxos block) {op : OutPoint}
    (hop : op ∈ wantedOutpoints C chainP2mr block) : ∃ txout, utxos.lookup op = some txout := by
  obtain ⟨tx, htx, -, hin, -, hsame⟩ := mem_wantedOutpoints.mp hop
  rw [sameBlockOutpoints_eq] at hsame
  exact Option.isSome_iff_exists.mp (AList.lookup_isSome.mpr (hcore.unspent htx hin hsame))

section

variable (hcore : CoreBlock C utxos block)
  (hanswer : validator.getblock (C.blockHash block.header) = some answer)
  (htruth : answer.Truthful utxos block)

include hcore hanswer htruth

theorem prefetched_known : KnownIn (validator.prefetchedPrevouts C chainP2mr block) utxos := by
  intro op txout hop
  rw [prefetchedPrevouts_eq hanswer] at hop
  obtain ⟨hwanted, hin⟩ := GbBlock.lookup_resolve hop
  obtain ⟨txout', hutxos⟩ := wanted_unspent hcore hwanted
  obtain rfl : txout = txout' := htruth.sound _ hin txout' hutxos
  exact hutxos

/-- All that is wanted is prefetched, and nothing else. -/
theorem mem_prefetched {op : OutPoint} : op ∈ validator.prefetchedPrevouts C chainP2mr block ↔
    op ∈ wantedOutpoints C chainP2mr block := by
  rw [prefetchedPrevouts_eq hanswer]
  constructor
  · intro hop
    obtain ⟨txout, htxout⟩ := Option.isSome_iff_exists.mp (AList.lookup_isSome.mpr hop)
    exact (GbBlock.lookup_resolve htxout).1
  · intro hop
    obtain ⟨txout, hutxos⟩ := wanted_unspent hcore hop
    obtain ⟨tx, htx, -, hin, -⟩ := mem_wantedOutpoints.mp hop
    obtain ⟨input, hinput, rfl⟩ := List.mem_map.mp hin
    exact GbBlock.mem_resolve hop (htruth.complete tx htx input hinput txout hutxos)

/-- A transaction lacks what no transaction before it creates and the prefetch passes over. -/
theorem unresolved_prefetched : Unresolved C block
    (fun op => op ∈ chainP2mr ∨ op ∈ validator.prefetchedPrevouts C chainP2mr block)
    fun tx op => needsPrefetch C chainP2mr tx = false ∧ op ∉ chainP2mr ∧
      op ∉ sameBlockOutpoints C block := by
  intro done tx rest hsplit hdone op hop
  have htx : tx ∈ block.txdata.drop 1 := by
    rw [hsplit, List.drop_append_of_le_length (List.length_pos_iff.mpr hdone)]
    simp
  -- No other transaction spends the output, so that none has it fetched.
  have hwanted : op ∈ wantedOutpoints C chainP2mr block ↔ needsPrefetch C chainP2mr tx = true ∧
      op ∉ chainP2mr ∧ op ∉ sameBlockOutpoints C block := by
    rw [mem_wantedOutpoints]
    constructor
    · rintro ⟨tx', htx', hneeds, hop', hnot⟩
      obtain rfl := hcore.once_of_mem htx htx' hop hop'
      exact ⟨hneeds, hnot⟩
    · rintro ⟨hneeds, hnot⟩
      exact ⟨tx, htx, hneeds, hop, hnot⟩
  dsimp only
  rw [mem_prefetched hcore hanswer htruth, hwanted, hcore.created_before hsplit hdone hop,
    ← sameBlockOutpoints_eq, ← Bool.not_eq_true]
  tauto

end

/-! ## Completeness -/

/-- With the prefetched outputs, the validation of a block fails for lack of an output if and only if the
validation with all outputs known looks up one that is neither tracked nor of the block, for a
transaction that the prefetch passes over. -/
theorem prefetch_complete_iff (hcore : CoreBlock C utxos block) (htracks : TracksP2mr chainP2mr utxos)
    (hanswer : validator.getblock (C.blockHash block.header) = some answer)
    (htruth : answer.Truthful utxos block) (clock : Clock) (height budgetMs : Nat)
    (activation : Bip360Activation) :
    (validateAndDiffBlockTransactions C clock block height activation chainP2mr
      (validator.prefetchedPrevouts C chainP2mr block) budgetMs).Avoids PqcValidationError.Lacks ↔
    ∀ e ∈ blockLookups C clock block height activation chainP2mr utxos budgetMs,
      needsPrefetch C chainP2mr e.1 = true ∨ e.2 ∈ chainP2mr ∨ e.2 ∈ sameBlockOutpoints C block := by
  refine (Except.Stops.avoids_iff (validateAndDiff_stops hcore htracks
    (prefetched_known hcore hanswer htruth) (unresolved_prefetched hcore hanswer htruth))
    (validateAndDiff_knows hcore)).trans ?_
  have hresolved : ∀ e : Transaction × OutPoint,
      ¬ (needsPrefetch C chainP2mr e.1 = false ∧ e.2 ∉ chainP2mr ∧ e.2 ∉ sameBlockOutpoints C block) ↔
        needsPrefetch C chainP2mr e.1 = true ∨ e.2 ∈ chainP2mr ∨ e.2 ∈ sameBlockOutpoints C block := by
    intro e
    rw [not_and_or, not_and_or, Bool.not_eq_false, not_not, not_not]
  constructor
  · intro hnone e he
    exact (hresolved e).mp fun hun => hnone ⟨e, he, hun⟩
  · rintro hall ⟨e, he, hun⟩
    exact (hresolved e).mpr (hall e he) hun

/-! A block that spends a P2MR output of the chain beside another one: all that is looked up is there. -/

/-- What the node answers of an input that spends the first output of transaction `n`. -/
def sampleVin (n : Nat) (txout : TxOut) : GbVin where
  txid := some (sampleHash n)
  vout := some 0
  prevout := some ⟨some txout.value, some txout.scriptPubkey⟩

def mixedUtxos : PrevoutMap := AList.insert ⟨sampleHash 9, 0⟩ ⟨10, []⟩ fundedUtxos

def mixedAnswer : GbBlock := ⟨[⟨[sampleVin 1 ⟨50, p2mrSpk⟩, sampleVin 9 ⟨10, []⟩]⟩]⟩

def mixedValidator : Validator := ⟨0, 1000, fun _ _ => 0, fun _ => some mixedAnswer⟩

theorem mixedUtxos_tracked : TracksP2mr fundedUtxos mixedUtxos := by
  intro op
  by_cases houtside : op = ⟨sampleHash 9, 0⟩
  · subst houtside
    rw [mixedUtxos, AList.lookup_insert]
    decide
  · rw [mixedUtxos, AList.lookup_insert_ne houtside]
    by_cases hfunded : op = ⟨sampleHash 1, 0⟩
    · subst hfunded
      rw [fundedUtxos, AList.lookup_insert]
      decide
    · rw [fundedUtxos, AList.lookup_insert_ne hfunded]
      rfl

theorem mixedBlock_complete : (validateAndDiffBlockTransactions .sample (fun _ => 0) mixedBlock 1 ⟨0⟩
    fundedUtxos (mixedValidator.prefetchedPrevouts .sample fundedUtxos mixedBlock) 1000).Avoids
      PqcValidationError.Lacks := by
  have hcore : CoreBlock .sample mixedUtxos mixedBlock :=
    ⟨by decide, by decide, by decide⟩
  have htruth : mixedAnswer.Truthful mixedUtxos mixedBlock := ⟨by decide, by decide⟩
  have hanswer : mixedValidator.getblock (Crypto.sample.blockHash mixedBlock.header) = some mixedAnswer := rfl
  exact (prefetch_complete_iff hcore mixedUtxos_tracked hanswer htruth _ _ _ _).mpr (by decide +kernel)

/-! Two blocks on a chain of which the outputs 8 and 9 are unspent. In the one, a P2MR output that the
block itself creates is spent beside an output of the chain; in the other, a leaf without a vault opcode
checks a signature. -/

def outsideUtxos : PrevoutMap :=
  AList.insert ⟨sampleHash 8, 0⟩ ⟨10, []⟩ (AList.insert ⟨sampleHash 9, 0⟩ ⟨50, []⟩ ∅)

def payTx : Transaction where
  version := 2
  lockTime := 2
  input := [⟨⟨sampleHash 9, 0⟩, [], 0, []⟩]
  output := [⟨50, p2mrSpk⟩]

def respendTx : Transaction where
  version := 2
  lockTime := 3
  input := [
    ⟨⟨sampleHash 3, 0⟩, [], 0, [sampleSignature (sampleHash 4), sampleLeaf, [0xc1]]⟩,
    ⟨⟨sampleHash 8, 0⟩, [], 0, []⟩]
  output := [⟨40, []⟩]

def respendBlock : Block := ⟨sampleHeader (sampleHash 1) 1, [sampleCoinbase 1 [], payTx, respendTx]⟩

/-- `<key> OP_CHECKSIG OP_0 OP_CAT`. -/
def signedCatLeaf : Script := 0x20 :: List.replicate 32 5 ++ [0xac, 0x00, 0xfe]

def signedCatTx : Transaction where
  version := 2
  lockTime := 2
  input := [⟨⟨sampleHash 9, 0⟩, [], 0,
    [sampleHash 3 ++ List.replicate 32 5, signedCatLeaf, 0xc0 :: List.replicate 32 0]⟩]
  output := [⟨40, []⟩]

def signedCatBlock : Block := ⟨sampleHeader (sampleHash 1) 2, [sampleCoinbase 1 [], signedCatTx]⟩

def outsideAnswer : BlockHash → GbBlock := fun hash =>
  if hash = sampleHash 2 then
    ⟨[⟨[sampleVin 9 ⟨50, []⟩]⟩, ⟨[sampleVin 3 ⟨50, p2mrSpk⟩, sampleVin 8 ⟨10, []⟩]⟩]⟩
  else ⟨[⟨[sampleVin 9 ⟨50, []⟩]⟩]⟩

def outsideValidator : Validator := ⟨0, 1000, fun _ _ => 0, fun hash => some (outsideAnswer hash)⟩

theorem outsideUtxos_tracked : TracksP2mr ∅ outsideUtxos := by
  intro op
  by_cases h8 : op = ⟨sampleHash 8, 0⟩
  · subst h8
    rw [outsideUtxos, AList.lookup_insert]
    decide
  · rw [outsideUtxos, AList.lookup_insert_ne h8]
    by_cases h9 : op = ⟨sampleHash 9, 0⟩
    · subst h9
      rw [AList.lookup_insert]
      decide
    · rw [AList.lookup_insert_ne h9]
      rfl

/-- A valid block, of which the node gives all outputs, but the prefetch asks it for none. -/
structure PrefetchMisses (block : Block) : Prop where
  core : CoreBlock .sample outsideUtxos block
  tracks : TracksP2mr ∅ outsideUtxos
  truthful : (outsideAnswer (Crypto.sample.blockHash block.header)).Truthful outsideUtxos block
  valid : (validateAndDiffBlockTransactions .sample (fun _ => 0) block 1 ⟨0⟩ ∅ outsideUtxos
    1000).isOk = true
  lacks : ¬ (validateAndDiffBlockTransactions .sample (fun _ => 0) block 1 ⟨0⟩ ∅
    (outsideValidator.prefetchedPrevouts .sample ∅ block) 1000).Avoids PqcValidationError.Lacks

theorem prefetch_misses : PrefetchMisses respendBlock ∧ PrefetchMisses signedCatBlock := by
  have hrespend : validateAndDiffBlockTransactions .sample (fun _ => 0) respendBlock 1 ⟨0⟩ ∅
      (outsideValidator.prefetchedPrevouts .sample ∅ respendBlock) 1000 =
      .error (.transaction (sampleHash 4) (.unverifiableSpend 0)) := by decide +kernel
  have hsignedCat : validateAndDiffBlockTransactions .sample (fun _ => 0) signedCatBlock 1 ⟨0⟩ ∅
      (outsideValidator.prefetchedPrevouts .sample ∅ signedCatBlock) 1000 =
      .error (.tapscript (sampleHash 3) (.interp 0 .missingPrevout)) := by decide
  constructor
  · refine ⟨⟨by decide, by decide, by decide⟩, outsideUtxos_tracked,
      ⟨by decide +kernel, by decide +kernel⟩, by decide +kernel, fun havoids => ?_⟩
    exact havoids _ hrespend (.transaction _ (.unverifiableSpend 0))
  · refine ⟨⟨by decide, by decide, by decide⟩, outsideUtxos_tracked,
      ⟨by decide, by decide⟩, by decide, fun havoids => ?_⟩
    exact havoids _ hsignedCat (.tapscript _ (.interp 0 .missingPrevout))

end Bip360Enforcer.Validator
