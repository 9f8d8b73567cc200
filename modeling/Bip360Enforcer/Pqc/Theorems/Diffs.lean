import Bip360Enforcer.Pqc.Lemmas.Tracking
import Bip360Enforcer.Pqc.Theorems.Signatures

/-!
# The diff of a block, with validation and without
-/

namespace Bip360Enforcer.Pqc

variable {C : Crypto} {clock : Clock} {block : Block} {height budget : Nat}
  {activation : Bip360Activation} {chainP2mrUtxos extraPrevouts : PrevoutMap} {diff : P2mrUtxoBlockDiff}

/-! ## Blocks of transactions of their own -/

/-- The rules of Core on a block: its coinbase spends nothing, and every transaction, of the block or of
the chain that the P2MR outputs come from, has a txid of its own. -/
structure OwnTxids (C : Crypto) (chainP2mrUtxos : PrevoutMap) (block : Block) : Prop where
  coinbase : ∀ tx ∈ block.txdata.head?, ∀ input ∈ tx.input, input.previousOutput = .null
  txids : (block.txdata.map C.computeTxid).Nodup
  chain : ∀ op ∈ chainP2mrUtxos, op.txid ∉ block.txdata.map C.computeTxid
  /-- The outputs of a transaction are numbered by a `u32`, of which the last is the null outpoint's. -/
  outputs : ∀ tx ∈ block.txdata, tx.output.length < 0xffffffff
  null : .null ∉ chainP2mrUtxos

def IsP2mrSet (utxos : PrevoutMap) : Prop := ∀ op txout, utxos.lookup op = some txout → isP2mr txout

theorem OwnTxids.blockOn (hset : IsP2mrSet chainP2mrUtxos) (h : OwnTxids C chainP2mrUtxos block) :
    BlockOn C (fun op => chainP2mrUtxos.lookup op) block where
  p2mr := hset
  coinbase := h.coinbase
  null := AList.lookup_eq_none.mpr h.null
  nodup := nodup_outpoints h.txids h.outputs
  fresh op hop := by
    obtain ⟨tx, htx, e, he, rfl⟩ := mem_outpoints.mp hop
    apply AList.lookup_eq_none.mpr
    intro hin
    apply h.chain _ hin
    rw [(mem_txOutputs he).1]
    exact List.mem_map_of_mem htx

/-! ## The same outputs spent and created -/

/-- The same outputs are spent and the same created, with the same values. -/
structure P2mrUtxoBlockDiff.Same (diff diff' : P2mrUtxoBlockDiff) : Prop where
  spent : ∀ op, diff.spent.lookup op = diff'.spent.lookup op
  created : ∀ op, diff.created.lookup op = diff'.created.lookup op

/-- The diff that validation keeps is the one that is computed without validation. -/
theorem validateAndDiff_same (hset : IsP2mrSet chainP2mrUtxos)
    (hblock : OwnTxids C chainP2mrUtxos block)
    (hextra : ∀ op txout, extraPrevouts.lookup op = some txout → ¬ isP2mr txout)
    (hactive : activation.isActive height = true)
    (hok : validateAndDiffBlockTransactions C clock block height activation chainP2mrUtxos extraPrevouts
      budget = .ok diff) :
    diff.Same (computeBlockDiff C block chainP2mrUtxos) := by
  cases htx : block.txdata with
  | nil =>
      rw [validateAndDiffBlockTransactions, hactive, if_neg (by decide), htx] at hok
      obtain rfl : P2mrUtxoBlockDiff.empty = diff := by
        simpa [startValidation, seedCoinbaseP2mrDiff, htx, bind, Except.bind, pure, Except.pure] using hok
      rw [computeBlockDiff, htx]
      exact ⟨fun _ => rfl, fun _ => rfl⟩
  | cons coinbase txs =>
      have hon := hblock.blockOn hset
      have hleads := hon.validateAndDiff_leads (fun _ => rfl) hextra htx hok
      have hleads' := hon.computeBlockDiff_leads fun _ => rfl
      have hsame := hleads.fits.unique hleads'.fits (hleads.apply.trans hleads'.apply.symm)
      exact ⟨fun op => (hsame op).1, fun op => (hsame op).2⟩

/-! A block whose second transaction spends an output of the chain and one of its own coinbase. -/

def chainedCoinbase : Transaction where
  version := 2
  lockTime := 5
  input := [⟨.null, [], 0, []⟩]
  output := [⟨30, jointSpk⟩]

def chainedTx : Transaction where
  version := 2
  lockTime := 0
  input := [jointInput [wholeSignature, wholeSignature],
    { jointInput [wholeSignature, wholeSignature] with
      previousOutput := ⟨Crypto.sample.computeTxid chainedCoinbase, 0⟩ }]
  output := [⟨80, jointSpk⟩]

def chainedBlock : Block where
  header := ⟨0, [], [], 0, 0, 0⟩
  txdata := [chainedCoinbase, chainedTx]

def chainedUtxos : PrevoutMap := AList.insert ⟨[1], 0⟩ ⟨50, jointSpk⟩ ∅

theorem chainedBlock_same : ∃ diff,
    validateAndDiffBlockTransactions .sample (fun _ => 0) chainedBlock 1 ⟨0⟩ chainedUtxos ∅ 1000 = .ok diff ∧
      diff.Same (computeBlockDiff .sample chainedBlock chainedUtxos) := by
  have hset : IsP2mrSet chainedUtxos := by
    intro op txout hop
    rw [chainedUtxos] at hop
    by_cases hk : op = ⟨[1], 0⟩
    · rw [hk, AList.lookup_insert] at hop
      obtain rfl := Option.some.inj hop
      decide
    · rw [AList.lookup_insert_ne hk, AList.lookup_empty] at hop
      cases hop
  have hblock : OwnTxids .sample chainedUtxos chainedBlock := by
    constructor
    · decide
    · decide
    · intro op hop
      rw [chainedUtxos, AList.mem_insert] at hop
      rcases hop with rfl | hop
      · decide
      · exact absurd hop (AList.notMem_empty op)
    · decide
    · decide
  cases hok : validateAndDiffBlockTransactions .sample (fun _ => 0) chainedBlock 1 ⟨0⟩ chainedUtxos ∅ 1000 with
  | error e =>
      have hisOk : (validateAndDiffBlockTransactions .sample (fun _ => 0) chainedBlock 1 ⟨0⟩ chainedUtxos ∅
        1000).isOk = true := by decide
      rw [hok] at hisOk
      cases hisOk
  | ok diff =>
      exact ⟨diff, rfl, validateAndDiff_same hset hblock (fun _ _ hop => by cases hop) (by decide) hok⟩

end Bip360Enforcer.Pqc
