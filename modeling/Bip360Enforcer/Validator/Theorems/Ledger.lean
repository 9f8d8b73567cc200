import Bip360Enforcer.Pqc.Lemmas.Block
import Bip360Enforcer.Validator.Lemmas.Live

/-!
# The P2MR outputs of the active chain
-/

namespace Bip360Enforcer.Validator

open Pqc (CoreChain BlockAuthorised P2mrUtxoBlockDiff replay outpoints validateAndDiff_authorised)

variable {C : Crypto} {headers : Set Header} {dbs : Dbs} {chain : List Block}

/-! ## The table is the replay of the chain -/

/-- The diff of `block`, on top of the blocks `below`, removes what is there and adds what is not, and
can be undone. -/
structure DiffExact (C : Crypto) (block : Block) (below : List Block) (diff : P2mrUtxoBlockDiff) :
    Prop where
  spentPresent : ∀ op ∈ diff.spent, (replay C below op).isSome
  createdAbsent : ∀ op ∈ diff.created, replay C below op = none
  createdPresent : ∀ op ∈ diff.created, (replay C (block :: below) op).isSome
  spentAbsent : ∀ op ∈ diff.spent, replay C (block :: below) op = none
  /-- An output that is created and spent in the block leaves no trace. -/
  noTrace : ∀ op ∈ outpoints C block.txdata, replay C (block :: below) op = none →
    op ∉ diff.spent ∧ op ∉ diff.created
  roundTrip : ∀ s t u : Store, (∀ op, s.dbs.p2mrUtxos.lookup op = replay C below op) →
    (applyDiff diff : Db DbError Unit) s = (.ok (), t) →
    (undoDiff diff : Db DbError Unit) t = (.ok (), u) →
    ∀ op, u.dbs.p2mrUtxos.lookup op = s.dbs.p2mrUtxos.lookup op

theorem diffExact_of_leads {block : Block} {diff : P2mrUtxoBlockDiff}
    (hcore : CoreChain C (block :: chain))
    (h : diff.Leads (replay C chain) (replay C (block :: chain)) (outpoints C block.txdata)) :
    DiffExact C block chain diff := by
  have hspent : ∀ op ∈ diff.spent, ∃ txout, diff.table.removed op = some txout ∧
      replay C chain op = some txout := by
    intro op hop
    obtain ⟨txout, htxout⟩ := Option.isSome_iff_exists.mp (AList.lookup_isSome.mpr hop)
    exact ⟨txout, htxout, h.fits.removed op txout htxout⟩
  have hcreated : ∀ op ∈ diff.created, replay C chain op = none := fun op hop =>
    h.fits.added op (AList.lookup_isSome.mpr hop)
  have hafter : ∀ op, replay C (block :: chain) op = diff.table.apply (replay C chain) op := fun op => by
    rw [h.apply]
  have hnotCreated : ∀ op ∈ diff.spent, op ∉ diff.created := by
    intro op hop hin
    obtain ⟨txout, -, hchain⟩ := hspent op hop
    rw [hcreated op hin] at hchain
    cases hchain
  constructor
  · intro op hop
    obtain ⟨txout, -, hchain⟩ := hspent op hop
    rw [hchain]
    rfl
  · exact hcreated
  · intro op hop
    obtain ⟨txout, htxout⟩ := Option.isSome_iff_exists.mp (AList.lookup_isSome.mpr hop)
    have hadded : diff.table.added op = some txout := htxout
    rw [hafter, TableDiff.apply, hadded]
    rfl
  · intro op hop
    obtain ⟨txout, hremoved, -⟩ := hspent op hop
    have hadded : diff.table.added op = none := AList.lookup_eq_none.mpr (hnotCreated op hop)
    rw [hafter, TableDiff.apply, hadded, hremoved]
    rfl
  · intro op hop hgone
    have hfresh := hcore.fresh hop
    refine ⟨fun hin => ?_, fun hin => ?_⟩
    · obtain ⟨txout, -, hchain⟩ := hspent op hin
      rw [hfresh] at hchain
      cases hchain
    · obtain ⟨txout, htxout⟩ := Option.isSome_iff_exists.mp (AList.lookup_isSome.mpr hin)
      have hadded : diff.table.added op = some txout := htxout
      rw [hafter, TableDiff.apply, hadded] at hgone
      cases hgone
  · intro s t u hs happly hundo op
    have happlied : Spec (applyDiff diff : Db DbError Unit) s.dbs _ _ fun _ => True :=
      applyDiff_spec trivial
    have hundone : Spec (undoDiff diff : Db DbError Unit) t.dbs _ (fun _ _ => True) fun _ => True :=
      undoDiff_spec trivial
    obtain ⟨-, ht, -⟩ := happlied.ok happly
    obtain ⟨-, hu⟩ := hundone.ok hundo
    have htable : (fun op => u.dbs.p2mrUtxos.lookup op) = fun op => s.dbs.p2mrUtxos.lookup op := by
      rw [hu, ht]
      change (fun op => (undoneUtxos diff (appliedUtxos diff s.dbs.p2mrUtxos)).lookup op) = _
      rw [lookup_undoneUtxos, lookup_appliedUtxos, funext hs, TableDiff.undo_apply h.fits]
    exact congrFun htable op

/-- In every reachable state the table is the replay of the active chain, and the stored diff of each
block of the chain is the exact step from the replay below it. -/
theorem p2mrUtxos_replay (hhashes : HonestHashes C headers) (h : Reachable C headers dbs chain) :
    (∀ op, dbs.p2mrUtxos.lookup op = replay C chain op) ∧
    ∀ block below, block :: below <:+ chain → ∃ diff,
      dbs.diff.lookup (C.blockHash block.header) = some diff ∧ DiffExact C block below diff := by
  have htracked := h.tracked hhashes
  refine ⟨congrFun htracked.utxos, fun block below hsuffix => ?_⟩
  obtain ⟨diff, hdiff, hleads⟩ := htracked.diffs block below hsuffix
  have hcore : ∀ above, CoreChain C (above ++ block :: below) → CoreChain C (block :: below) := by
    intro above
    induction above with
    | nil => exact id
    | cons _ above ih => exact fun hc => ih hc.tail
  obtain ⟨above, rfl⟩ := hsuffix
  exact ⟨diff, hdiff, diffExact_of_leads (hcore above htracked.core) hleads⟩

/-! A chain of two blocks: the coinbase of the first pays to a P2MR output, the second spends it. -/

/-- An ML-DSA key, and a signature of it over the message. -/
def sampleKey : Bytes := List.replicate 1312 7

def sampleSignature (message : Bytes) : Bytes :=
  message ++ sampleKey.take 32 ++ List.replicate 2356 0

/-- `<key> OP_CHECKSIG`. -/
def sampleLeaf : Script := 0x4d :: 0x20 :: 0x05 :: sampleKey ++ [0xac]

def p2mrSpk : Script := 0x52 :: 0x20 :: Crypto.sample.p2mrLeafHash 0xc0 sampleLeaf

def sampleCoinbase (n : UInt32) (output : List TxOut) : Transaction where
  version := 2
  lockTime := n
  input := [⟨.null, [], 0, []⟩]
  output := output

def sampleHeader (prevBlockhash : BlockHash) (nonce : UInt32) : Header where
  version := 2
  prevBlockhash := prevBlockhash
  merkleRoot := []
  time := 0
  bits := 0
  nonce := nonce

def sampleHash (n : Nat) : BlockHash := LittleEndian.encode 32 n

def genesis : Block := ⟨sampleHeader .allZeros 0, [sampleCoinbase 0 [⟨50, p2mrSpk⟩]]⟩

def spendTx : Transaction where
  version := 2
  lockTime := 2
  input := [⟨⟨sampleHash 1, 0⟩, [], 0, [sampleSignature (sampleHash 3), sampleLeaf, [0xc1]]⟩]
  output := [⟨40, p2mrSpk⟩]

def child : Block := ⟨sampleHeader (sampleHash 1) 1, [sampleCoinbase 1 [], spendTx]⟩

def genesisHash : BlockHash := Crypto.sample.blockHash genesis.header

def childHash : BlockHash := Crypto.sample.blockHash child.header

def sampleHandler : BlockHandler := ⟨0, 1000, ∅, fun _ _ => 0⟩

def sampleValidator : Validator := ⟨0, 1000, fun _ _ => 0, fun _ => none⟩

/-- A store in which no operation fails. -/
def freshStore (dbs : Dbs) : Store := ⟨dbs, [], none, fun _ _ => false, []⟩

def headerStore : Store :=
  ((putHeaders .sample [(genesis.header, 0), (child.header, 1)] : Db DbError Unit)
    (freshStore .empty)).2

def genesisStore : Store := (sampleHandler.connectBlock .sample genesis headerStore).2

def childStore : Store := (sampleHandler.connectBlock .sample child genesisStore).2

def sampleHeaders : Set Header := {genesis.header, child.header}

theorem sampleHeaders_honest : HonestHashes .sample sampleHeaders where
  injective := by
    have h : ∀ a ∈ [genesis.header, child.header], ∀ b ∈ [genesis.header, child.header],
        Crypto.sample.blockHash a = Crypto.sample.blockHash b → a = b := by decide
    intro a ha b hb
    exact h a (by simpa [sampleHeaders] using ha) b (by simpa [sampleHeaders] using hb)
  nonzero := by
    rintro header (rfl | rfl)
    · decide
    · decide

theorem sampleCore : CoreChain .sample [child, genesis] where
  coinbase := by
    simp [child, genesis, sampleCoinbase]
  txids := by decide
  outputs := by
    simp [child, genesis, sampleCoinbase, spendTx]

def genesisEvent : Event := connectEvent .sample genesis 0 (sampleCoinbase 0 [⟨50, p2mrSpk⟩])

def childEvent : Event := connectEvent .sample child 1 (sampleCoinbase 1 [])

theorem headers_stored :
    (putHeaders .sample [(genesis.header, 0), (child.header, 1)] : Db DbError Unit)
      (freshStore .empty) = (.ok (), headerStore) := by
  unfold headerStore
  exact Program.eq_of_fst (by decide)

theorem genesis_connects :
    sampleHandler.connectBlock .sample genesis headerStore = (.ok genesisEvent, genesisStore) := by
  unfold genesisStore
  exact Program.eq_of_fst (by decide)

theorem child_connects :
    sampleHandler.connectBlock .sample child genesisStore = (.ok childEvent, childStore) := by
  unfold childStore
  exact Program.eq_of_fst (by decide +kernel)

theorem sampleHandler_noP2mr : NoP2mr sampleHandler.extraPrevouts := by
  intro op txout h
  cases h

theorem genesisStore_reachable : Reachable .sample sampleHeaders genesisStore.dbs [genesis] := by
  refine .connect (.putHeaders (s := freshStore .empty) .empty ?_ headers_stored) (.inl rfl) sampleCore.tail
    sampleHandler_noP2mr genesis_connects
  simp [sampleHeaders]

theorem childStore_reachable : Reachable .sample sampleHeaders childStore.dbs [child, genesis] :=
  .connect genesisStore_reachable (.inr rfl) sampleCore sampleHandler_noP2mr child_connects

theorem childStore_replay :
    childStore.dbs.p2mrUtxos.lookup ⟨sampleHash 3, 0⟩ = some ⟨40, p2mrSpk⟩ ∧
    ∀ op, childStore.dbs.p2mrUtxos.lookup op = replay .sample [child, genesis] op :=
  ⟨by decide +kernel, (p2mrUtxos_replay sampleHeaders_honest childStore_reachable).1⟩

/-! ## No spend without authorisation -/

/-- Every P2MR output that an accepted block at an active height spends, of the table or of the block
itself, is spent with the authorisation that it asks for. -/
theorem connectBlock_authorised (hhashes : HonestHashes C headers) {s t : Store}
    (hreachable : Reachable C headers s.dbs chain) {handler : BlockHandler} {block : Block}
    {event : Event} {height : Nat} (hcore : CoreChain C (block :: chain))
    (hextra : NoP2mr handler.extraPrevouts)
    (hheight : s.dbs.height.lookup (C.blockHash block.header) = some height)
    (hactive : handler.activation.isActive height = true)
    (haccepted : handler.connectBlock C block s = (.ok event, t)) :
    BlockAuthorised C (fun op => s.dbs.p2mrUtxos.lookup op) block := by
  obtain ⟨-, height', coinbase, txs, diff, header, work, hconnects, -⟩ :=
    (connectBlock_spec fun _ h => h).ok haccepted
  obtain rfl : height = height' := Option.some.inj (hheight.symm.trans hconnects.hasHeight)
  have hutxos := (hreachable.tracked hhashes).utxos
  rw [hutxos]
  exact validateAndDiff_authorised hcore (congrFun hutxos) hextra hactive hconnects.valid

theorem child_authorised :
    Pqc.Authorised .sample spendTx 0 ⟨⟨sampleHash 1, 0⟩, [], 0, [sampleSignature (sampleHash 3),
      sampleLeaf, [0xc1]]⟩ ⟨50, p2mrSpk⟩ (Pqc.replayTxs .sample (fun op => genesisStore.dbs.p2mrUtxos.lookup op)
        [sampleCoinbase 1 []]) := by
  have hheight : genesisStore.dbs.height.lookup (Crypto.sample.blockHash child.header) = some 1 := by
    decide
  have hall := connectBlock_authorised sampleHeaders_honest genesisStore_reachable sampleCore
    sampleHandler_noP2mr hheight (by decide) child_connects
  exact hall [sampleCoinbase 1 []] spendTx [] rfl (by simp) 0 _ _ rfl (by decide)

end Bip360Enforcer.Validator
