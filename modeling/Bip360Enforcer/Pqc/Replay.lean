import Bip360Enforcer.Library.Table
import Bip360Enforcer.Pqc.P2mrUtxo

/-!
# The unspent P2MR outputs of a chain

Chains are listed newest block first.
-/

namespace Bip360Enforcer.Pqc

variable (C : Crypto)

/-! ## Replay -/

def addMoves (outputs : List (OutPoint × TxOut)) : List (Move OutPoint TxOut) :=
  (outputs.filter fun e => isP2mr e.2).map fun e => .add e.1 e.2

/-- A transaction takes out all that it spends, then adds its P2MR outputs. -/
def txMoves (tx : Transaction) : List (Move OutPoint TxOut) :=
  (tx.input.map fun input => .remove input.previousOutput) ++ addMoves (txOutputs C tx)

/-- The table `t` after the transactions `txs`. -/
def replayTxs (t : Table OutPoint TxOut) (txs : List Transaction) : Table OutPoint TxOut :=
  (txs.flatMap (txMoves C)).foldl Move.act t

/-- The P2MR outputs that are created in a chain and not spent there. -/
def replay : List Block → Table OutPoint TxOut
  | [] => fun _ => none
  | block :: chain => replayTxs C (replay chain) block.txdata

/-! ## What Core guarantees of a chain -/

/-- The rules of Core that the P2MR outputs of a chain depend on. -/
structure CoreChain (chain : List Block) : Prop where
  coinbase : ∀ block ∈ chain, ∀ tx ∈ block.txdata.head?, ∀ input ∈ tx.input,
    input.previousOutput = .null
  txids : ((chain.flatMap Block.txdata).map C.computeTxid).Nodup
  /-- No transaction has enough outputs to create the null outpoint. -/
  outputs : ∀ block ∈ chain, ∀ tx ∈ block.txdata, tx.output.length < 0xffffffff

variable {C}

theorem CoreChain.tail {block : Block} {chain : List Block} (h : CoreChain C (block :: chain)) :
    CoreChain C chain where
  coinbase b hb := h.coinbase b (List.mem_cons_of_mem _ hb)
  txids := by
    have := h.txids
    rw [List.flatMap_cons, List.map_append] at this
    exact this.of_append_right
  outputs b hb := h.outputs b (List.mem_cons_of_mem _ hb)

/-! ## Outputs -/

theorem mem_txOutputs {tx : Transaction} {e : OutPoint × TxOut} (h : e ∈ txOutputs C tx) :
    e.1.txid = C.computeTxid tx ∧
      ∃ vout, tx.output[vout]? = some e.2 ∧ e.1.vout = UInt32.ofNat vout := by
  obtain ⟨⟨output, vout⟩, hmem, rfl⟩ := List.mem_map.mp h
  exact ⟨rfl, vout, by simpa [List.mem_zipIdx_iff_getElem?] using hmem, rfl⟩

theorem nodup_txOutputs {tx : Transaction} (h : tx.output.length < 0xffffffff) :
    ((txOutputs C tx).map Prod.fst).Nodup := by
  have hkeys : (txOutputs C tx).map Prod.fst =
      (List.range tx.output.length).map fun vout => ⟨C.computeTxid tx, UInt32.ofNat vout⟩ := by
    apply List.ext_getElem
    · simp [txOutputs]
    · intro i h₁ h₂
      simp [txOutputs]
  rw [hkeys]
  refine List.nodup_range.map_on ?_
  intro i hi j hj hij
  rw [List.mem_range] at hi hj
  have hvout : UInt32.ofNat i = UInt32.ofNat j := by simpa using hij
  have := congrArg UInt32.toNat hvout
  simp only [UInt32.toNat_ofNat'] at this
  omega

theorem null_notMem_txOutputs {tx : Transaction} (h : tx.output.length < 0xffffffff)
    {e : OutPoint × TxOut} (he : e ∈ txOutputs C tx) : e.1 ≠ .null := by
  obtain ⟨-, vout, hvout, hidx⟩ := mem_txOutputs he
  have hlt : vout < tx.output.length := (List.getElem?_eq_some_iff.mp hvout).1
  rintro hnull
  rw [hnull] at hidx
  have := congrArg UInt32.toNat hidx
  simp only [OutPoint.null, UInt32.toNat_ofNat'] at this
  simp at this
  omega

/-- The outpoints of all outputs of some transactions, one after the other. -/
def outpoints (C : Crypto) (txs : List Transaction) : List OutPoint :=
  (txs.flatMap (txOutputs C)).map Prod.fst

theorem outpoints_append (txs txs' : List Transaction) :
    outpoints C (txs ++ txs') = outpoints C txs ++ outpoints C txs' := by
  simp [outpoints]

theorem outpoints_cons (tx : Transaction) (txs : List Transaction) :
    outpoints C (tx :: txs) = (txOutputs C tx).map Prod.fst ++ outpoints C txs := by
  simp [outpoints]

theorem outpoints_concat (txs : List Transaction) (tx : Transaction) :
    outpoints C (txs ++ [tx]) = outpoints C txs ++ (txOutputs C tx).map Prod.fst := by
  simp [outpoints]

theorem mem_outpoints {txs : List Transaction} {op : OutPoint} :
    op ∈ outpoints C txs ↔ ∃ tx ∈ txs, ∃ e ∈ txOutputs C tx, e.1 = op := by
  simp only [outpoints, List.mem_map, List.mem_flatMap]
  constructor
  · rintro ⟨e, ⟨tx, htx, he⟩, rfl⟩
    exact ⟨tx, htx, e, he, rfl⟩
  · rintro ⟨tx, htx, e, he, rfl⟩
    exact ⟨e, ⟨tx, htx, he⟩, rfl⟩

theorem nodup_outpoints {txs : List Transaction} (hids : (txs.map C.computeTxid).Nodup)
    (hlen : ∀ tx ∈ txs, tx.output.length < 0xffffffff) : (outpoints C txs).Nodup := by
  rw [outpoints, List.map_flatMap, List.nodup_flatMap]
  refine ⟨fun tx htx => nodup_txOutputs (hlen tx htx), ?_⟩
  refine (List.pairwise_map.mp hids).imp ?_
  intro a b hab op ha hb
  obtain ⟨e, he, rfl⟩ := List.mem_map.mp ha
  obtain ⟨e', he', heq⟩ := List.mem_map.mp hb
  exact hab (by rw [← (mem_txOutputs he).1, ← (mem_txOutputs he').1, heq])

/-! ## What is unspent was created -/

theorem addMoves_cons (e : OutPoint × TxOut) (outputs : List (OutPoint × TxOut)) :
    addMoves (e :: outputs) = addMoves [e] ++ addMoves outputs := by
  by_cases hp : isP2mr e.2 <;> simp [addMoves, hp]

theorem act_addMoves {outputs : List (OutPoint × TxOut)} {t : Table OutPoint TxOut} {op : OutPoint}
    {txout : TxOut} (h : (addMoves outputs).foldl Move.act t op = some txout) :
    t op = some txout ∨ ((op, txout) ∈ outputs ∧ isP2mr txout) := by
  induction outputs generalizing t with
  | nil => exact .inl h
  | cons e outputs ih =>
      by_cases hp : isP2mr e.2
      · have hadd : addMoves (e :: outputs) = .add e.1 e.2 :: addMoves outputs := by
          simp [addMoves, hp]
        rw [hadd, List.foldl_cons] at h
        rcases ih h with h | ⟨h, hp'⟩
        · by_cases hop : op = e.1
          · subst hop
            obtain rfl : e.2 = txout := by simpa [Move.act] using h
            exact .inr ⟨by simp, hp⟩
          · exact .inl (by simpa [Move.act, hop] using h)
        · exact .inr ⟨List.mem_cons_of_mem _ h, hp'⟩
      · have hskip : addMoves (e :: outputs) = addMoves outputs := by simp [addMoves, hp]
        rw [hskip] at h
        rcases ih h with h | ⟨h, hp'⟩
        · exact .inl h
        · exact .inr ⟨List.mem_cons_of_mem _ h, hp'⟩

theorem act_removes {inputs : List TxIn} {t : Table OutPoint TxOut} {op : OutPoint} :
    (inputs.map fun input => Move.remove input.previousOutput).foldl Move.act t op =
      if ∃ input ∈ inputs, input.previousOutput = op then none else t op := by
  induction inputs generalizing t with
  | nil => simp
  | cons input inputs ih =>
      rw [List.map_cons, List.foldl_cons, ih]
      by_cases hop : op = input.previousOutput
      · subst hop; simp [Move.act]
      · simp [Move.act, hop, Ne.symm hop]

theorem replayTxs_cons {t : Table OutPoint TxOut} {tx : Transaction} {txs : List Transaction} :
    replayTxs C t (tx :: txs) = replayTxs C ((txMoves C tx).foldl Move.act t) txs := by
  rw [replayTxs, List.flatMap_cons, List.foldl_append, replayTxs]

theorem replayTxs_append {t : Table OutPoint TxOut} {txs txs' : List Transaction} :
    replayTxs C t (txs ++ txs') = replayTxs C (replayTxs C t txs) txs' := by
  rw [replayTxs, List.flatMap_append, List.foldl_append, replayTxs, replayTxs]

theorem act_txMoves {tx : Transaction} {t : Table OutPoint TxOut} {op : OutPoint} {txout : TxOut}
    (h : (txMoves C tx).foldl Move.act t op = some txout) :
    t op = some txout ∨ ((op, txout) ∈ txOutputs C tx ∧ isP2mr txout) := by
  rw [txMoves, List.foldl_append] at h
  rcases act_addMoves h with h | h
  · rw [act_removes] at h
    split at h
    · cases h
    · exact .inl h
  · exact .inr h

theorem replayTxs_some {txs : List Transaction} {t : Table OutPoint TxOut} {op : OutPoint}
    {txout : TxOut} (h : replayTxs C t txs op = some txout) :
    t op = some txout ∨ ((op, txout) ∈ txs.flatMap (txOutputs C) ∧ isP2mr txout) := by
  induction txs generalizing t with
  | nil => exact .inl h
  | cons tx txs ih =>
      rw [replayTxs_cons] at h
      rcases ih h with h | ⟨h, hp⟩
      · rcases act_txMoves h with h | ⟨h, hp⟩
        · exact .inl h
        · exact .inr ⟨by simp [h], hp⟩
      · exact .inr ⟨by rw [List.flatMap_cons]; exact List.mem_append_right _ h, hp⟩

theorem replay_some {chain : List Block} {op : OutPoint} {txout : TxOut}
    (h : replay C chain op = some txout) :
    op ∈ outpoints C (chain.flatMap Block.txdata) ∧ isP2mr txout := by
  induction chain with
  | nil => cases h
  | cons block chain ih =>
      rw [outpoints, List.flatMap_cons, List.flatMap_append, List.map_append, List.mem_append]
      rcases replayTxs_some h with h | ⟨h, hp⟩
      · exact ⟨.inr (ih h).1, (ih h).2⟩
      · exact ⟨.inl (List.mem_map_of_mem h), hp⟩

theorem CoreChain.nodup_outpoints {chain : List Block} (h : CoreChain C chain) :
    (outpoints C (chain.flatMap Block.txdata)).Nodup := by
  refine Pqc.nodup_outpoints h.txids ?_
  intro tx htx
  obtain ⟨block, hblock, htx⟩ := List.mem_flatMap.mp htx
  exact h.outputs block hblock tx htx

/-- A block creates only outpoints that are new to its chain. -/
theorem CoreChain.fresh {block : Block} {chain : List Block} (h : CoreChain C (block :: chain))
    {op : OutPoint} (hop : op ∈ outpoints C block.txdata) : replay C chain op = none := by
  have hnodup := h.nodup_outpoints
  rw [outpoints, List.flatMap_cons, List.flatMap_append, List.map_append, List.nodup_append'] at hnodup
  cases hr : replay C chain op with
  | none => rfl
  | some txout => exact absurd (replay_some hr).1 (hnodup.2.2 hop)

theorem CoreChain.replay_null {chain : List Block} (h : CoreChain C chain) :
    replay C chain .null = none := by
  cases hr : replay C chain .null with
  | none => rfl
  | some txout =>
      obtain ⟨tx, htx, e, he, hnull⟩ := mem_outpoints.mp (replay_some hr).1
      obtain ⟨block, hblock, htx⟩ := List.mem_flatMap.mp htx
      exact absurd hnull (null_notMem_txOutputs (h.outputs block hblock tx htx) he)

end Bip360Enforcer.Pqc
