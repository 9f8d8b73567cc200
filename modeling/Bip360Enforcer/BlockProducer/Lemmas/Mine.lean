import Bip360Enforcer.BlockProducer.Rules

/-!
# The blocks that are assembled
-/

namespace Bip360Enforcer.Mining

open Validator (BlockHeights Db Dbs HonestHashes HonestReachable Spec hashesOf tipOf)

variable {C : Crypto} {M : Miner} {headers : Set Header} {heightOf : BlockHash → Nat} {dbs : Dbs}
  {chain below : List Block} {block tip : Block} {coinbase : Transaction} {txs : List Transaction}
  {outputs : List TxOut} {spk : Script} {height : Nat}

/-! ## The coinbase transaction -/

theorem length_pushSlice {data : Bytes} (h : data.length < 0x4c) :
    (pushSlice data).length = data.length + 1 := by
  rw [pushSlice, if_pos h]
  rfl

theorem length_pushInt (h : height < 2 ^ 32) :
    1 ≤ (pushInt height).length ∧ (pushInt height).length ≤ 6 := by
  rw [pushInt]
  split
  · exact ⟨Nat.le_refl _, by simp⟩
  · split
    · exact ⟨Nat.le_refl _, by simp⟩
    · have hlen : (SignMagnitude.encode height).length ≤ 5 := by
        apply SignMagnitude.length_encode_le
        rw [Int.natAbs_natCast]
        omega
      rw [length_pushSlice (by omega)]
      omega

theorem getBlockValue_regtest (height : Nat) : getBlockValue height 0 .regtest = subsidy height := by
  have hsubsidy : subsidyHalvingInterval .regtest = 150 := rfl
  rw [getBlockValue, subsidy, hsubsidy]
  split
  · rename_i hlate
    symm
    apply Nat.div_eq_of_lt
    calc 50 * oneBtc < 2 ^ 64 := by decide
      _ ≤ 2 ^ (height / 150) := Nat.pow_le_pow_right (by omega) hlate
  · rw [Nat.zero_add, Nat.shiftRight_eq_div_pow]

theorem subsidy_le (height : Nat) : subsidy height ≤ 50 * oneBtc := Nat.div_le_self _ _

theorem outputsValue_append (outs outs' : List TxOut) :
    outputsValue (outs ++ outs') = outputsValue outs + outputsValue outs' := by
  induction outs with
  | nil => simp [outputsValue]
  | cons out outs ih => simp only [List.cons_append, outputsValue, ih, Nat.add_assoc]

/-- The coinbase of a block at `height`, before the commitment is added. -/
theorem finalizeCoinbase_value (height : Nat) (spk : Script) (outputs : List TxOut) :
    outputsValue (finalizeCoinbase height spk outputs).output =
      subsidy (height + 1) + outputsValue outputs := by
  have hbound := subsidy_le (height + 1)
  have hfits : subsidy (height + 1) < 2 ^ 64 := Nat.lt_of_le_of_lt hbound (by decide)
  simp only [finalizeCoinbase, getBlockValue_regtest, outputsValue]
  congr 1
  split
  · rw [UInt64.toNat_ofNat', Nat.mod_eq_of_lt hfits]
  · rename_i hzero
    rw [Nat.eq_zero_of_not_pos hzero]
    rfl

theorem finalizeCoinbase_at (h : height + 1 < 2 ^ 32) (hvalues : outputsValue outputs = 0) (root : Bytes) :
    CoinbaseAt (height + 1) (addCommitment C root (finalizeCoinbase height spk outputs)) where
  isCoinbase := rfl
  start := by
    intro input hinput
    obtain rfl := List.mem_singleton.mp hinput
    exact List.prefix_append _ _
  size := by
    intro input hinput
    obtain rfl := List.mem_singleton.mp hinput
    have hpush := length_pushInt h
    rw [List.length_append, List.length_singleton]
    omega
  reward := by
    rw [addCommitment, outputsValue_append, finalizeCoinbase_value, hvalues]
    exact Nat.le_refl _

/-! ## Commitments -/

/-- What `Crypto` leaves open: that a hash has 32 bytes. -/
def HashSize (C : Crypto) : Prop := ∀ data, (C.sha256 data).length = 32

theorem newOpReturn_commitment (hsize : HashSize C) (root reserved : Bytes) :
    newOpReturn (witnessCommitmentHeader ++ computeWitnessCommitment C root reserved) =
      [0x6a, 0x24] ++ witnessCommitmentHeader ++ computeWitnessCommitment C root reserved := by
  have hlen : (computeWitnessCommitment C root reserved).length = 32 := hsize _
  have hall : (witnessCommitmentHeader ++ computeWitnessCommitment C root reserved).length = 36 := by
    rw [List.length_append, hlen]
    rfl
  rw [newOpReturn, pushSlice, if_pos (by omega), PushForm.write, hall]
  rfl

/-- The commitment that is added to the coinbase counts; the root that it is made from does not change
with it. -/
theorem checkWitnessCommitment_added {header : Header} {root : Bytes} (hsize : HashSize C)
    (hwitness : coinbase.input.map TxIn.witness = [[witnessReservedValue]])
    (hcoinbase : isCoinbase coinbase = true)
    (hroot : witnessRoot C M ⟨header, addCommitment C root coinbase :: txs⟩ = some root) :
    checkWitnessCommitment C M ⟨header, addCommitment C root coinbase :: txs⟩ = true := by
  have hlen : (computeWitnessCommitment C root witnessReservedValue).length = 32 := hsize _
  have hfilter : ((addCommitment C root coinbase).output.filter isCommitment).getLast? =
      some ⟨0, [0x6a, 0x24] ++ witnessCommitmentHeader ++
        computeWitnessCommitment C root witnessReservedValue⟩ := by
    have hlast : isCommitment ⟨0, [0x6a, 0x24] ++ witnessCommitmentHeader ++
        computeWitnessCommitment C root witnessReservedValue⟩ = true := by
      rw [isCommitment, List.length_append, hlen]
      simp [witnessCommitmentHeader]
    rw [addCommitment, newOpReturn_commitment hsize, List.filter_append, List.filter_singleton, hlast]
    simp
  have hinput : (addCommitment C root coinbase).input = coinbase.input := rfl
  have hfirst : isCoinbase (addCommitment C root coinbase) = true := hcoinbase
  rw [checkWitnessCommitment, Bool.or_eq_true]
  right
  simp only [hfirst, hfilter, hinput, hwitness, hroot, Bool.true_and]
  rw [Bool.and_eq_true]
  refine ⟨rfl, decide_eq_true ?_⟩
  rw [show ([0x6a, 0x24] ++ witnessCommitmentHeader : Bytes) = [0x6a, 0x24, 0xaa, 0x21, 0xa9, 0xed] from rfl]
  simp only [List.cons_append, List.nil_append, List.drop_succ_cons, List.drop_zero]
  rw [List.take_of_length_le (by omega)]

/-! ## Time -/

/-- A block that is later than its parent is not too old for a chain without such blocks. -/
theorem NotTooOld.of_parent (hchain : TimesAscend (tip :: below))
    (h : tip.header.time.toNat < block.header.time.toNat) : NotTooOld (tip :: below) block := by
  intro time hmedian
  refine Nat.lt_of_le_of_lt ?_ h
  exact pastMedian_cons_le (by omega) (hchain tip below (List.suffix_refl _)) hmedian

theorem lt_succTime {time : UInt32} (h : time ≠ 0xffffffff) : time.toNat < (succTime time).toNat := by
  have hbound := time.toNat_lt
  have hne : time.toNat ≠ 0xffffffff := fun heq => h (UInt32.toNat.inj heq)
  rw [succTime, if_neg h, UInt32.toNat_add]
  simp only [UInt32.toNat_one]
  omega

theorem succTime_le_max (now tipTime : UInt32) :
    (succTime tipTime).toNat ≤ (max now (succTime tipTime)).toNat := by
  change _ ≤ (if now ≤ succTime tipTime then succTime tipTime else now).toNat
  split
  · exact Nat.le_refl _
  · rename_i hlt
    rw [UInt32.le_iff_toNat_le] at hlt
    omega

/-! ## Assembly -/

/-- What the databases say of the tip of the chain. -/
theorem getHeaderInfo_tip (hhashes : HonestHashes C headers) (hheights : BlockHeights C headers heightOf)
    (h : HonestReachable C headers heightOf dbs (tip :: below)) :
    Spec (Validator.getHeaderInfo C (C.blockHash tip.header)) dbs
      (fun info d => d = dbs ∧ info.height = below.length ∧ info.timestamp = tip.header.time)
      (fun _ _ => False) fun e => e = .db .io := by
  have hchain : HonestReachable C headers heightOf dbs ([] ++ tip :: below) := h
  have hstored := hchain.storedChain hhashes
  have hindex := (h.chainIndex hhashes hheights).height (C.blockHash tip.header)
  have hheader := (hstored.header hhashes).1
  rw [hheader, hstored.heightOf_tip hhashes hheights] at hindex
  refine Spec.bind (Spec.tryGet rfl ?_)
  rw [hheader]
  refine Spec.bind (Spec.tryGet rfl ?_)
  rw [hindex]
  exact Spec.pure ⟨rfl, rfl, rfl⟩

/-- The witnesses have a root, whatever the coinbase is. -/
theorem exists_witnessRoot (C : Crypto) (M : Miner) (txs : List Transaction) :
    ∃ root, ∀ header coinbase, witnessRoot C M ⟨header, coinbase :: txs⟩ = some root := by
  obtain ⟨root, hroot⟩ := Option.isSome_iff_exists.mp (HashPairs.root_isSome (pairHash C)
    (List.cons_ne_nil (List.replicate 32 0) (txs.map M.computeWtxid)))
  exact ⟨root, fun _ _ => hroot⟩

theorem exists_merkleRoot (C : Crypto) (coinbase : Transaction) (txs : List Transaction) :
    ∃ root, ∀ header, merkleRoot C ⟨header, coinbase :: txs⟩ = some root := by
  obtain ⟨root, hroot⟩ := Option.isSome_iff_exists.mp (HashPairs.root_isSome (pairHash C)
    (List.cons_ne_nil (C.computeTxid coinbase) (txs.map C.computeTxid)))
  exact ⟨root, fun _ => hroot⟩

/-- What an assembled block is like. -/
structure Assembled (C : Crypto) (M : Miner) (chain : List Block) (txs : List Transaction) (block : Block) :
    Prop where
  rules : ObeysRules C M chain block
  later : ∀ tip ∈ chain.head?, tip.header.time ≠ 0xffffffff →
    tip.header.time.toNat < block.header.time.toNat
  transactions : block.txdata.tail = txs

/-- Why no block is assembled, when no operation of the databases fails. -/
def NotAssembled (chain : List Block) (now : Option Nat) (e : GenerateBlockError) : Prop :=
  (chain = [] ∧ e = .getMainchainTip .missingValue) ∨ (now = none ∧ e = .systemTime)

theorem finalizeBlock_spec (hsize : HashSize C) (hhashes : HonestHashes C headers)
    (hheights : BlockHeights C headers heightOf) (h : HonestReachable C headers heightOf dbs chain)
    (hheight : chain.length < 2 ^ 32) (hvalues : outputsValue outputs = 0) (now : Option Nat) :
    Spec (finalizeBlock C M now spk outputs txs) dbs
      (fun block d => d = dbs ∧ Assembled C M chain txs block)
      (fun e d => d = dbs ∧ NotAssembled chain now e)
      fun e => e = .getMainchainTip .io ∨ e = .getHeaderInfo (.db .io) := by
  have htip := (h.reachable.tracked hhashes).indexed.tip
  refine Spec.bind (Spec.mapError (Spec.bind (Spec.access (.inl rfl) (Spec.require (.inl rfl) ?_ ?_))))
  · intro tipHash hlookup
    rw [htip] at hlookup
    cases chain with
    | nil => cases hlookup
    | cons tip below =>
        obtain rfl : C.blockHash tip.header = tipHash := Option.some.inj hlookup
        refine Spec.bind (Spec.mapError (Spec.bind (Spec.access (.inr rfl)
          ((getHeaderInfo_tip hhashes hheights h).mono ?_ (fun _ _ hfalse => hfalse.elim) fun _ he => ?_))))
        · rintro info d ⟨rfl, hinfo, htime⟩
          cases now with
          | none => exact Spec.fail ⟨rfl, .inr ⟨rfl, rfl⟩⟩
          | some now =>
              obtain ⟨root, hroot⟩ := exists_witnessRoot C M txs
              obtain ⟨merkle, hmerkle⟩ :=
                exists_merkleRoot C (addCommitment C root (finalizeCoinbase info.height spk outputs)) txs
              simp only [hroot, hmerkle]
              refine Spec.pure ⟨rfl, ?_⟩
              have hversion : (4 : Int32) ≤ noSoftForkSignalling := by decide
              rw [hinfo, htime] at *
              refine ⟨⟨rfl, hversion, rfl, hmerkle _, ?_, _, txs, rfl, ?_⟩, ?_, rfl⟩
              · exact checkWitnessCommitment_added hsize rfl rfl (hroot _ _)
              · exact finalizeCoinbase_at hheight hvalues root
              · intro other hother hmax
                obtain rfl : tip = other := Option.some.inj hother
                exact Nat.lt_of_lt_of_le (lt_succTime hmax) (succTime_le_max _ _)
        · rw [he]
          exact .inr rfl
  · intro hlookup
    rw [htip] at hlookup
    cases chain with
    | nil => exact ⟨rfl, .inl ⟨rfl, rfl⟩⟩
    | cons tip below => cases hlookup

end Bip360Enforcer.Mining
