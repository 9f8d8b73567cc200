import Bip360Enforcer.Library.SafeFile
import Bip360Enforcer.Validator.Summary
import Bip360Enforcer.Validator.Theorems.ReachesTip

/-!
# A verified state is the state of the reference
-/

namespace Bip360Enforcer

instance : Std.IsLinearOrder OutPoint where
  le_refl a := .inr ⟨rfl, Std.le_refl _⟩
  le_trans a b c := by
    rintro (hab | ⟨hab, hvout⟩) (hbc | ⟨hbc, hvout'⟩)
    · exact .inl (List.lt_trans hab hbc)
    · exact .inl (hbc ▸ hab)
    · exact .inl (hab ▸ hbc)
    · exact .inr ⟨hab.trans hbc, Std.le_trans hvout hvout'⟩
  le_antisymm a b := by
    rintro (hab | ⟨hab, hvout⟩) (hba | ⟨hba, hvout'⟩)
    · exact absurd hba (List.lt_asymm hab)
    · exact absurd (hba ▸ hab) (List.lt_irrefl _)
    · exact absurd (hab ▸ hba) (List.lt_irrefl _)
    · cases a
      cases b
      simp only [OutPoint.mk.injEq]
      exact ⟨hab, Std.le_antisymm hvout hvout'⟩
  le_total a b := by
    rcases List.le_total a.txid b.txid with hle | hle
    · rcases List.le_iff_lt_or_eq.mp hle with hlt | heq
      · exact .inl (.inl hlt)
      · exact (Std.le_total (a := a.vout) (b := b.vout)).imp (fun h => .inr ⟨heq, h⟩)
          fun h => .inr ⟨heq.symm, h⟩
    · rcases List.le_iff_lt_or_eq.mp hle with hlt | heq
      · exact .inr (.inl hlt)
      · exact (Std.le_total (a := a.vout) (b := b.vout)).imp (fun h => .inr ⟨heq.symm, h⟩)
          fun h => .inr ⟨heq, h⟩

namespace Validator

open Program (wp)

variable {C : Crypto} {headers : Set Header} {heightOf : BlockHash → Nat} {dbs dbs' : Dbs}
  {chain chain' : List Block} {hashes hashes' : List BlockHash} {stored stored' : HashDb Header}
  {json : SummaryJson} {summary summary' : SyncStateSummary}

/-! ## What a summary says -/

/-- The summary of the databases, unless nothing is connected. -/
def stateSummary (dbs : Dbs) : Option SyncStateSummary :=
  dbs.currentChainTip.bind fun tip => (dbs.height.lookup tip).map fun height =>
    ⟨tip, height, dbs.p2mrUtxos.sortedRecords P2mrUtxoSummary.ofEntry P2mrUtxoSummary.outpoint⟩

theorem syncStateSummary_spec :
    Spec syncStateSummary dbs (fun summary d => d = dbs ∧ stateSummary dbs = some summary)
      (fun _ _ => True) fun _ => True := by
  apply Spec.bind
  apply Spec.mapError
  refine Spec.bind (Spec.access trivial (Spec.require trivial ?_ fun _ => trivial))
  intro tip htip
  refine Spec.bind (Spec.mapError (Spec.bind (Spec.read trivial ?_)))
  rw [htip]
  refine Spec.bind (Spec.get trivial ?_ fun _ => trivial)
  intro height hheight
  apply Spec.pure
  refine Spec.bind (Spec.access trivial (Spec.bind (Spec.read trivial (Spec.pure ⟨rfl, ?_⟩))))
  rw [stateSummary, htip, Option.bind_some, hheight]
  rfl

theorem ofEntry_injective : Function.Injective P2mrUtxoSummary.ofEntry := by
  rintro ⟨outpoint, value, script⟩ ⟨outpoint', value', script'⟩ heq
  simp only [P2mrUtxoSummary.ofEntry, P2mrUtxoSummary.mk.injEq] at heq
  obtain ⟨rfl, rfl, hscript⟩ := heq
  obtain rfl := Hex.encode_injective hscript
  rfl

/-- The summaries of two validators are the same if and only if their tips and tables are. -/
theorem stateSummary_inj (h : ChainIndex C headers heightOf dbs)
    (h' : ChainIndex C headers heightOf dbs') (hsummary : stateSummary dbs = some summary)
    (hsummary' : stateSummary dbs' = some summary') :
    summary = summary' ↔ dbs.currentChainTip = dbs'.currentChainTip ∧
      ∀ op, dbs.p2mrUtxos.lookup op = dbs'.p2mrUtxos.lookup op := by
  obtain ⟨tip, htip, hrest⟩ := Option.bind_eq_some_iff.mp hsummary
  obtain ⟨height, hheight, rfl⟩ := Option.map_eq_some_iff.mp hrest
  obtain ⟨tip', htip', hrest'⟩ := Option.bind_eq_some_iff.mp hsummary'
  obtain ⟨height', hheight', rfl⟩ := Option.map_eq_some_iff.mp hrest'
  rw [h.height] at hheight
  rw [h'.height] at hheight'
  obtain ⟨-, -, rfl⟩ := Option.map_eq_some_iff.mp hheight
  obtain ⟨-, -, rfl⟩ := Option.map_eq_some_iff.mp hheight'
  have hkey : ∀ entry, (P2mrUtxoSummary.ofEntry entry).outpoint = entry.1 := fun _ => rfl
  rw [htip, htip', Option.some.injEq, SyncStateSummary.mk.injEq,
    AList.sortedRecords_eq_iff hkey ofEntry_injective]
  constructor
  · rintro ⟨rfl, -, hlookup⟩
    exact ⟨rfl, hlookup⟩
  · rintro ⟨rfl, hlookup⟩
    exact ⟨rfl, rfl, hlookup⟩

/-! ## Validators with the same tip -/

theorem Linked.head_ne_zeros (h : Linked dbs.header hashes) (hhashes : HonestHashes C headers)
    (hkeyed : Keyed C headers dbs) : hashes.head? ≠ some .allZeros := by
  intro hzero
  cases hashes with
  | nil => cases hzero
  | cons first rest =>
      obtain rfl : first = .allZeros := Option.some.inj hzero
      obtain ⟨header, hstored, -⟩ := h _ rest (List.suffix_refl _)
      rw [Keyed.zeros hkeyed hhashes] at hstored
      cases hstored

theorem eq_of_getD {found found' : Option BlockHash} (h : found ≠ some .allZeros)
    (h' : found' ≠ some .allZeros) (heq : found.getD .allZeros = found'.getD .allZeros) :
    found = found' := by
  cases found with
  | none =>
      cases found' with
      | none => rfl
      | some blockHash' => exact absurd (congrArg some heq.symm) h'
  | some blockHash =>
      cases found' with
      | none => exact absurd (congrArg some heq) h
      | some blockHash' => exact congrArg some heq

/-- Two chains of headers that start at the same block are the same. -/
theorem linked_unique (hhashes : HonestHashes C headers) (hkeyed : Keyed C headers dbs)
    (hkeyed' : Keyed C headers dbs') (h : Linked dbs.header hashes) (h' : Linked dbs'.header hashes')
    (hhead : hashes.head? = hashes'.head?) : hashes = hashes' := by
  induction hashes generalizing hashes' with
  | nil =>
      cases hashes' with
      | nil => rfl
      | cons _ _ => cases hhead
  | cons top below ih =>
      cases hashes' with
      | nil => cases hhead
      | cons top' below' =>
          obtain rfl : top = top' := Option.some.inj hhead
          obtain ⟨header, hstored, hprev⟩ := h top below (List.suffix_refl _)
          obtain ⟨header', hstored', hprev'⟩ := h' top below' (List.suffix_refl _)
          obtain ⟨hmem, rfl⟩ := hkeyed _ _ hstored
          obtain ⟨hmem', hhash⟩ := hkeyed' _ _ hstored'
          obtain rfl := hhashes.injective hmem' hmem hhash
          have hbelow := eq_of_getD (h.tail.head_ne_zeros hhashes hkeyed)
            (h'.tail.head_ne_zeros hhashes hkeyed') (hprev.symm.trans hprev')
          rw [ih h.tail h'.tail hbelow]

/-- No two blocks of the chains have one hash. -/
def SameBlocks (C : Crypto) (chain chain' : List Block) : Prop :=
  ∀ block ∈ chain, ∀ block' ∈ chain',
    C.blockHash block.header = C.blockHash block'.header → block = block'

theorem SameBlocks.symm (h : SameBlocks C chain chain') : SameBlocks C chain' chain :=
  fun block' hblock' block hblock hhash => (h block hblock block' hblock' hhash.symm).symm

theorem chain_eq_of_hashes (hblocks : SameBlocks C chain chain')
    (h : hashesOf C chain = hashesOf C chain') : chain = chain' := by
  induction chain generalizing chain' with
  | nil =>
      cases chain' with
      | nil => rfl
      | cons _ _ => cases h
  | cons block chain ih =>
      cases chain' with
      | nil => cases h
      | cons block' chain' =>
          obtain ⟨hhash, hrest⟩ := List.cons_eq_cons.mp h
          obtain rfl := hblocks block List.mem_cons_self block' List.mem_cons_self hhash
          rw [ih (fun b hb b' hb' => hblocks b (.tail _ hb) b' (.tail _ hb')) hrest]

/-- Whatever they went through, two validators with the same tip have the same table. -/
theorem utxos_eq_of_tip (hhashes : HonestHashes C headers) (h : Tracked C headers dbs chain)
    (h' : Tracked C headers dbs' chain') (hblocks : SameBlocks C chain chain')
    (htip : dbs.currentChainTip = dbs'.currentChainTip) (op : OutPoint) :
    dbs.p2mrUtxos.lookup op = dbs'.p2mrUtxos.lookup op := by
  have hhead : (hashesOf C chain).head? = (hashesOf C chain').head? := by
    rw [← h.indexed.tip, ← h'.indexed.tip, htip]
  have hhashesEq := linked_unique hhashes h.indexed.keyed h'.indexed.keyed h.indexed.linked
    h'.indexed.linked hhead
  obtain rfl := chain_eq_of_hashes hblocks hhashesEq
  exact congrFun (h.utxos.trans h'.utxos.symm) op

/-! ## Verification -/

/-- The file that the text of a summary is written to holds it, and can be read again. -/
def ReadsBack (json : SummaryJson) (summary : SyncStateSummary) : Prop :=
  json.isUtf8 (json.toStringPretty summary ++ [10]) = true ∧
    json.fromStr (json.toStringPretty summary ++ [10]) = some summary

theorem writeStateFile_spec {fs : FileSystem String UInt8} {stateFile : String} {contents : Bytes} :
    Machine.Spec Set.univ (writeStateFile stateFile contents) fs
      (fun _ d => d.read stateFile = some contents) fun _ _ => True := by
  apply Machine.Spec.bind
  apply Machine.Spec.operation
  · intro file d hrun
    cases hrun
    apply Machine.Spec.operation
    · intro _ d hrun
      cases hrun
      exact FileSystem.read_append_create _ _ _
    · intro _ _ _
      trivial
    · intro _ _
      trivial
    · intro _ _ _ _
      trivial
  · intro _ _ _
    trivial
  · intro _ _
    trivial
  · intro _ _ _ _
    trivial

/-- The summary of the databases gets into the file, and nothing else is written. -/
theorem reportSyncState_wp {stateFile : String} {p : Process} :
    wp (reportSyncState json stateFile)
      (fun summary q => stateSummary q.store.dbs = some summary ∧
        q.machine.fs.read stateFile = some (json.toStringPretty summary ++ [10]))
      (fun e _ => ∀ report, e ≠ .verificationFailed report) p := by
  rw [reportSyncState, Program.wp_bind, Program.wp_mapError, onStore, Program.wp_focus]
  apply (syncStateSummary_spec p.store rfl).mono
  · rintro summary u ⟨-, hdbs, hsummary⟩
    rw [Program.wp_bind, Program.wp_mapError, onMachine, Program.wp_focus]
    apply (writeStateFile_spec p.machine rfl fun _ => trivial).mono
    · rintro _ t ⟨hread, -⟩
      rw [← hdbs] at hsummary
      exact ⟨hsummary, hread⟩
    · intro _ _ _ report heq
      cases heq
  · intro _ _ _ report heq
    cases heq

theorem knownBlockHeight_wp {post : Option Nat → Process → Prop}
    {failed : ExitAfterSyncError → Process → Prop} {p : Process} (h : ∀ height q, post height q) :
    wp knownBlockHeight post failed p := by
  rw [knownBlockHeight, Program.wp_bind, onStore, Program.wp_focus, Program.wp_attempt]
  exact (Program.wp_self _ _).mono (fun _ _ _ => h _ _) fun _ _ _ => h _ _

/-- A bounded sync verifies nothing. -/
theorem syncToHeight_wp {validator : Validator} {node : NodeAnswers} {goalHeight : Nat} {label : String}
    {p : Process} : wp (syncToHeight C validator node goalHeight label) (fun _ _ => True)
      (fun e _ => ∀ report, e ≠ .verificationFailed report) p := by
  rw [syncToHeight, Program.wp_bind]
  apply knownBlockHeight_wp
  intro startHeight q
  cases startHeight.filter (goalHeight < ·) with
  | some current =>
      intro report heq
      cases heq
  | none =>
      cases node.getblockhash goalHeight with
      | none =>
          intro report heq
          cases heq
      | some targetHash =>
          simp only [Program.wp_bind, Program.wp_mapError]
          apply (Program.wp_self _ _).mono
          · intro _ _ _
            exact knownBlockHeight_wp fun _ _ => trivial
          · intro _ _ _ report heq
            cases heq

/-- A run that comes to its comparison has written the summary of what it compares. -/
theorem runExitAfterSync_wp {validator : Validator} {node : NodeAnswers} {goalHeight : Nat}
    {stateFile : String} {reference : Option SyncStateSummary} {p : Process} :
    wp (runExitAfterSync C json validator node goalHeight stateFile reference)
      (fun _ q => ∃ produced, stateSummary q.store.dbs = some produced ∧
        q.machine.fs.read stateFile = some (json.toStringPretty produced ++ [10]) ∧
        ∀ expected, reference = some expected → produced = expected)
      (fun e q => ∀ report, e = .verificationFailed report →
        ∃ produced expected, stateSummary q.store.dbs = some produced ∧ reference = some expected ∧
          produced ≠ expected) p := by
  rw [runExitAfterSync, Program.wp_bind]
  apply syncToHeight_wp.mono
  · intro _ q _
    rw [Program.wp_bind]
    apply reportSyncState_wp.mono
    · rintro produced t ⟨hsummary, hread⟩
      cases reference with
      | none => exact ⟨produced, hsummary, hread, fun _ hnone => by cases hnone⟩
      | some expected =>
          rw [Program.wp_ofExcept, verifyAgainstReference]
          by_cases heq : produced = expected
          · rw [if_pos heq]
            constructor
            · intro _ _
              refine ⟨produced, hsummary, hread, fun expected' hexpected => ?_⟩
              exact heq.trans (Option.some.inj hexpected)
            · intro _ hok
              cases hok
          · rw [if_neg heq]
            constructor
            · intro _ herror
              cases herror
            · intro _ _ _ _
              exact ⟨produced, expected, hsummary, rfl, heq⟩
    · intro e _ hnot report heq
      exact absurd heq (hnot report)
  · intro e _ hnot report heq
    exact absurd heq (hnot report)

theorem loadConsensusReference_wp {path : String} {m : Machine String UInt8} {contents : Bytes}
    (hread : m.fs.read path = some contents) (hutf8 : json.isUtf8 contents = true)
    (hjson : json.fromStr contents = some summary) :
    wp (loadConsensusReference json path) (fun reference _ => reference = summary)
      (fun e _ => ∀ report, e ≠ .verificationFailed report) m := by
  rw [loadConsensusReference, Program.wp_bind, Program.wp_mapError]
  have hspec : Machine.Spec Set.univ (Machine.readFile path) m.fs (fun found _ => found = contents)
      fun (_ : FileError) _ => True := by
    apply Machine.Spec.operation
    · intro found d hrun
      rw [hread] at hrun
      cases hrun
      rfl
    · intro _ _ _
      trivial
    · intro _ _
      trivial
    · intro _ _ _ _
      trivial
  apply (hspec m rfl fun _ => trivial).mono
  · rintro found t ⟨rfl, -⟩
    rw [if_pos hutf8, hjson]
    rfl
  · intro _ _ _ report heq
    cases heq

/-- One validator has written its state to a file; another one, whatever it went through, verifies its own
against a copy. The verification passes where the tips are the same, and only there; the tables are then
the same, and so is the file that it writes. -/
theorem verification_passes_iff {validator validator' : Validator} {node node' : NodeAnswers}
    {stateFile stateFile' path : String} {exitAfterSync exitAfterSync' : Option Nat} {blocks blocks' : Nat}
    {p q a b : Process} {outcome : Except ExitAfterSyncError Unit}
    (hhashes : HonestHashes C headers) (hheights : BlockHeights C headers heightOf)
    (ha : HonestReachable C headers heightOf a.store.dbs chain)
    (hb : HonestReachable C headers heightOf b.store.dbs chain') (hblocks : SameBlocks C chain chain')
    (hexport : exitAfterSyncMode C json validator node stateFile none exitAfterSync blocks p = (.ok (), a))
    (hjson : ∀ summary, stateSummary a.store.dbs = some summary → ReadsBack json summary)
    (hcopy : q.machine.fs.read path = a.machine.fs.read stateFile)
    (hrun : exitAfterSyncMode C json validator' node' stateFile' (some path) exitAfterSync' blocks' q =
      (outcome, b)) :
    (outcome = .ok () → b.store.dbs.currentChainTip = a.store.dbs.currentChainTip ∧
      (∀ op, b.store.dbs.p2mrUtxos.lookup op = a.store.dbs.p2mrUtxos.lookup op) ∧
      b.machine.fs.read stateFile' = a.machine.fs.read stateFile) ∧
    ∀ report, outcome = .error (.verificationFailed report) →
      b.store.dbs.currentChainTip ≠ a.store.dbs.currentChainTip := by
  obtain ⟨expected, hexpected, hfile, -⟩ := runExitAfterSync_wp.ok hexport
  obtain ⟨hutf8, hback⟩ := hjson expected hexpected
  have hindex := ha.chainIndex hhashes hheights
  have hindex' := hb.chainIndex hhashes hheights
  have hwp : wp (exitAfterSyncMode C json validator' node' stateFile' (some path) exitAfterSync' blocks')
      (fun _ b => ∃ produced, stateSummary b.store.dbs = some produced ∧
        b.machine.fs.read stateFile' = some (json.toStringPretty produced ++ [10]) ∧ produced = expected)
      (fun e b => ∀ report, e = .verificationFailed report →
        ∃ produced, stateSummary b.store.dbs = some produced ∧ produced ≠ expected) q := by
    rw [exitAfterSyncMode, Program.wp_bind, onMachine, Program.wp_focus]
    apply (loadConsensusReference_wp (hcopy.trans hfile) hutf8 hback).mono
    · rintro _ m rfl
      apply runExitAfterSync_wp.mono
      · rintro _ u ⟨produced, hproduced, hread, hsame⟩
        exact ⟨produced, hproduced, hread, hsame _ rfl⟩
      · intro e u hfailed report heq
        obtain ⟨produced, _, hproduced, hexpected', hne⟩ := hfailed report heq
        cases hexpected'
        exact ⟨produced, hproduced, hne⟩
    · intro e _ hnot report heq
      exact absurd heq (hnot report)
  constructor
  · rintro rfl
    obtain ⟨produced, hproduced, hread, rfl⟩ := hwp.ok hrun
    obtain ⟨htip, hutxos⟩ := (stateSummary_inj hindex' hindex hproduced hexpected).mp rfl
    exact ⟨htip, hutxos, hread.trans hfile.symm⟩
  · rintro report rfl htip
    obtain ⟨produced, hproduced, hne⟩ := hwp.error hrun report rfl
    have hutxos := utxos_eq_of_tip hhashes (hb.reachable.tracked hhashes) (ha.reachable.tracked hhashes)
      hblocks.symm htip
    exact hne ((stateSummary_inj hindex' hindex hproduced hexpected).mpr ⟨htip, hutxos⟩)

/-! The state of one validator is verified by another one with the same tip. -/

def diffEntries (dbs : Dbs) :
    List (BlockHash × List (Sigma fun _ : OutPoint => TxOut) × List (Sigma fun _ : OutPoint => TxOut)) :=
  dbs.diff.entries.map fun entry => (entry.1, entry.2.spent.entries, entry.2.created.entries)

/-- The databases have the same entries. -/
def SameEntries (dbs dbs' : Dbs) : Prop :=
  dbs.coinbaseTxid.entries = dbs'.coinbaseTxid.entries ∧
    dbs.cumulativeWork.entries = dbs'.cumulativeWork.entries ∧ diffEntries dbs = diffEntries dbs' ∧
    dbs.header.entries = dbs'.header.entries ∧ dbs.height.entries = dbs'.height.entries ∧
    dbs.currentChainTip = dbs'.currentChainTip ∧ dbs.p2mrUtxos.entries = dbs'.p2mrUtxos.entries

instance : Decidable (SameEntries dbs dbs') :=
  inferInstanceAs (Decidable (_ ∧ _ ∧ _ ∧ _ ∧ _ ∧ _ ∧ _))

theorem SameEntries.eq (h : SameEntries dbs dbs') : dbs = dbs' := by
  have hinjective : Function.Injective fun entry : Sigma fun _ : BlockHash => Pqc.P2mrUtxoBlockDiff =>
      (entry.1, entry.2.spent.entries, entry.2.created.entries) := by
    rintro ⟨blockHash, spent, created⟩ ⟨blockHash', spent', created'⟩ heq
    simp only [Prod.mk.injEq] at heq
    obtain ⟨rfl, hspent, hcreated⟩ := heq
    obtain rfl := AList.ext hspent
    obtain rfl := AList.ext hcreated
    rfl
  obtain ⟨hcoinbase, hwork, hdiff, hheader, hheight, htip, hutxos⟩ := h
  cases dbs
  cases dbs'
  simp only [Dbs.mk.injEq]
  exact ⟨AList.ext hcoinbase, AList.ext hwork, AList.ext (hinjective.list_map hdiff), AList.ext hheader,
    AList.ext hheight, htip, AList.ext hutxos⟩

def prettyUtxo (utxo : P2mrUtxoSummary) : String :=
  "    \x7b\n      \"outpoint\": \"" ++ displayHash utxo.outpoint.txid ++ ":"
    ++ toString utxo.outpoint.vout.toNat ++ "\",\n      \"value_sats\": " ++ toString utxo.valueSats.toNat
    ++ ",\n      \"script_pubkey_hex\": \"" ++ utxo.scriptPubkeyHex ++ "\"\n    \x7d"

def prettySummary (summary : SyncStateSummary) : String :=
  "\x7b\n  \"tip_hash\": \"" ++ displayHash summary.tipHash
    ++ "\",\n  \"tip_height\": " ++ toString summary.tipHeight ++ ",\n  \"p2mr_utxos\": [\n"
    ++ ",\n".intercalate (summary.p2mrUtxos.map prettyUtxo) ++ "\n  ]\n\x7d"

def sampleSummary : SyncStateSummary :=
  ⟨childHash, 1, [⟨⟨sampleHash 3, 0⟩, 40, Hex.encode p2mrSpk⟩]⟩

/-- The JSON crate, as far as the sample goes. -/
def sampleJson : SummaryJson where
  isUtf8 _ := true
  toStringPretty summary := Hex.textBytes (prettySummary summary)
  fromStr contents :=
    if contents = Hex.textBytes (prettySummary sampleSummary) ++ [10] then some sampleSummary else none

def childNode : NodeAnswers where
  getblockhash height := if height = 1 then some childHash else none
  headers := []
  source := siblingSource

def exportedProcess : Process :=
  (exitAfterSyncMode .sample sampleJson sampleValidator childNode "consensus-state.json" none none 1
    ⟨reorgStore, ⟨.empty, fun _ => .none⟩⟩).2

def verifiedProcess : Process :=
  (exitAfterSyncMode .sample sampleJson sampleValidator childNode "consensus-state.json"
    (some "consensus-state.json") none 7 ⟨reorgStore, exportedProcess.machine⟩).2

theorem verifiedProcess_passes :
    verifiedProcess.store.dbs.currentChainTip = exportedProcess.store.dbs.currentChainTip ∧
      (∀ op, verifiedProcess.store.dbs.p2mrUtxos.lookup op = exportedProcess.store.dbs.p2mrUtxos.lookup op) ∧
      verifiedProcess.machine.fs.read "consensus-state.json" =
        exportedProcess.machine.fs.read "consensus-state.json" := by
  have hexport : exitAfterSyncMode .sample sampleJson sampleValidator childNode "consensus-state.json" none
      none 1 ⟨reorgStore, ⟨.empty, fun _ => .none⟩⟩ = (.ok (), exportedProcess) := by
    unfold exportedProcess
    exact Program.eq_of_fst (by decide +kernel)
  have hrun : exitAfterSyncMode .sample sampleJson sampleValidator childNode "consensus-state.json"
      (some "consensus-state.json") none 7 ⟨reorgStore, exportedProcess.machine⟩ =
        (.ok (), verifiedProcess) := by
    unfold verifiedProcess
    exact Program.eq_of_fst (by decide +kernel)
  have ha : exportedProcess.store.dbs = reorgStore.dbs :=
    SameEntries.eq (by decide +kernel)
  have hb : verifiedProcess.store.dbs = reorgStore.dbs :=
    SameEntries.eq (by decide +kernel)
  have hsummary : stateSummary exportedProcess.store.dbs = some sampleSummary := by
    rw [ha]
    decide +kernel
  have hreach : HonestReachable .sample forkHeaders forkHeightOf exportedProcess.store.dbs
      [child, genesis] := by
    rw [ha]
    exact reorgStore_reachable
  have hreach' : HonestReachable .sample forkHeaders forkHeightOf verifiedProcess.store.dbs
      [child, genesis] := by
    rw [hb]
    exact reorgStore_reachable
  have hblocks : SameBlocks .sample [child, genesis] [child, genesis] := by
    unfold SameBlocks
    decide +kernel
  have hjson : ∀ summary, stateSummary exportedProcess.store.dbs = some summary →
      ReadsBack sampleJson summary := by
    intro summary heq
    obtain rfl := Option.some.inj (hsummary.symm.trans heq)
    exact ⟨rfl, by simp [sampleJson]⟩
  have hcopy : (Process.mk reorgStore exportedProcess.machine).machine.fs.read "consensus-state.json" =
      exportedProcess.machine.fs.read "consensus-state.json" := by dsimp only
  obtain ⟨hpasses, -⟩ := verification_passes_iff forkHeaders_honest forkHeights hreach hreach' hblocks
    hexport hjson hcopy hrun
  exact hpasses rfl

end Validator

end Bip360Enforcer
