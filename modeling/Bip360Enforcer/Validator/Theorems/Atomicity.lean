import Bip360Enforcer.Validator.Lemmas.Batch
import Bip360Enforcer.Validator.Theorems.Ledger

/-!
# Rejected blocks leave nothing behind
-/

namespace Bip360Enforcer.Validator

open Program (wp)

variable {C : Crypto} {header : Header} {dbs dbs' : Dbs}

/-- The databases differ by nothing but the header with its height. -/
structure OnlyHeader (C : Crypto) (header : Header) (dbs dbs' : Dbs) : Prop where
  tip : dbs'.currentChainTip = dbs.currentChainTip
  utxos : dbs'.p2mrUtxos = dbs.p2mrUtxos
  diff : dbs'.diff = dbs.diff
  work : dbs'.cumulativeWork = dbs.cumulativeWork
  coinbase : dbs'.coinbaseTxid = dbs.coinbaseTxid
  headers : dbs'.header = dbs.header ∨
    dbs.header.lookup (C.blockHash header) = none ∧
      dbs'.header = dbs.header.insert (C.blockHash header) header
  heights : ∀ hash ≠ C.blockHash header, dbs'.height.lookup hash = dbs.height.lookup hash

theorem HeaderStored.onlyHeader (h : HeaderStored C header dbs dbs') : OnlyHeader C header dbs dbs' := by
  cases h with
  | kept => exact ⟨rfl, rfl, rfl, rfl, rfl, .inl rfl, fun _ _ => rfl⟩
  | added height habsent hparent _ =>
      refine ⟨rfl, rfl, rfl, rfl, rfl, .inr ⟨habsent, rfl⟩, fun hash hne => ?_⟩
      by_cases hzero : header.prevBlockhash = .allZeros
      · simp [withHeader, hzero, AList.lookup_insert_ne hne]
      · obtain ⟨parentHeight, hlookup, rfl⟩ := hparent hzero
        have hheight : (withHeader C header (parentHeight + 1) dbs).height =
            (dbs.height.insert (C.blockHash header) (parentHeight + 1)).insert header.prevBlockhash
              parentHeight := if_neg hzero
        rw [hheight]
        by_cases heq : hash = header.prevBlockhash
        · rw [heq, AList.lookup_insert, hlookup]
        · rw [AList.lookup_insert_ne heq, AList.lookup_insert_ne hne]

/-- The batch `blocks` stopped at a block that was rejected. -/
structure StoppedAt (C : Crypto) (handler : BlockHandler) (blocks : List Block) (s : Store)
    (hash : BlockHash) (err : ConnectBlockError) (t : Store) (accepted : List Block) (rejected : Block)
    (rest : List Block) (before after : Store) : Prop where
  blocks : blocks = accepted ++ rejected :: rest
  hash : C.blockHash rejected.header = hash
  accepted : handler.handleBlockBatch C accepted s = (.ok none, before)
  rejected : handler.connectBlock C rejected before = (.error err, after)
  unchanged : after.dbs = before.dbs
  committed : t.dbs = before.dbs

theorem connectBatch_stopped {handler : BlockHandler} {blocks : List Block} {s t : Store}
    {hash : BlockHash} {err : ConnectBlockError}
    (h : handler.connectBatch C blocks s = (.ok (some (hash, err)), t)) :
    ∃ accepted rejected rest before after,
      StoppedAt C handler blocks s.next.begin hash err t accepted rejected rest before after := by
  have hwp : wp (handler.connectBatch C blocks)
      (fun outcome t => ∃ u, handler.handleBlockBatch C blocks s.next.begin = (.ok outcome, u) ∧
        t.dbs = u.dbs) (fun _ _ => True) s := by
    refine wp_transaction (fun _ => trivial) ?_
    rw [Program.wp_bind]
    refine (Program.wp_self _ _).mono ?_ fun _ _ _ => trivial
    intro outcome u hu
    simp only [commit, Program.wp_bind, wp_access, Program.wp_pure]
    exact ⟨fun _ => trivial, fun _ => ⟨u, hu, rfl⟩⟩
  obtain ⟨after, hbatch, hdbs⟩ := hwp.ok h
  obtain ⟨accepted, rejected, rest, before, hblocks, hhash, haccepted, hrejected, herr⟩ :=
    BlockHandler.handleBlockBatch_rejected hbatch
  have hunchanged := connectBlock_rejected hrejected herr
  exact ⟨accepted, rejected, rest, before, after, hblocks, hhash, haccepted, hrejected, hunchanged,
    hdbs.trans hunchanged⟩

/-- A block that is rejected leaves nothing but its header and height, on the live path, and nothing at
all in a batch, which keeps the blocks that were accepted before it. -/
theorem rejected_leaves_header (C : Crypto) :
    (∀ (validator : Validator) (block : Block) (s t : Store),
      validator.connectBlock C block s = (.ok .reject, t) → OnlyHeader C block.header s.dbs t.dbs) ∧
    ∀ (handler : BlockHandler) (blocks : List Block) (s t : Store) (hash : BlockHash)
      (err : ConnectBlockError), handler.connectBatch C blocks s = (.ok (some (hash, err)), t) →
      ∃ accepted rejected rest before after,
        StoppedAt C handler blocks s.next.begin hash err t accepted rejected rest before after := by
  refine ⟨fun validator block s t h => ?_, fun handler blocks s t hash err h => connectBatch_stopped h⟩
  obtain ⟨extra, -, -, -, hheader, -⟩ := connectBlock_wp.ok h
  exact hheader.onlyHeader

/-- A block without transactions. -/
def stray : Block := ⟨sampleHeader .allZeros 5, []⟩

theorem stray_leaves_header :
    OnlyHeader .sample stray.header .empty
      (sampleValidator.connectBlock .sample stray (freshStore .empty)).2.dbs ∧
    ∃ accepted rejected rest before after, StoppedAt .sample sampleHandler [genesis, stray]
      headerStore.next.begin (Crypto.sample.blockHash stray.header)
      (.blockParent .allZeros genesisHash 0)
      (sampleHandler.connectBatch .sample [genesis, stray] headerStore).2
      accepted rejected rest before after :=
  ⟨(rejected_leaves_header .sample).1 sampleValidator stray (freshStore .empty) _
      (Prod.ext (by decide) rfl),
    (rejected_leaves_header .sample).2 sampleHandler [genesis, stray] headerStore _ _ _
      (Prod.ext (by decide) rfl)⟩

end Bip360Enforcer.Validator
