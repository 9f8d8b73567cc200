import Bip360Enforcer.BlockProducer.Mine
import Bip360Enforcer.Library.PastMedian
import Bip360Enforcer.Validator.Theorems.Infos

/-!
# What the network demands of a block on top of a chain

Chains are newest first, and those of the regtest network.
-/

namespace Bip360Enforcer.Mining

open Validator (tipOf)

/-! ## Coinbase transactions -/

def isCoinbase (tx : Transaction) : Bool := tx.input.map TxIn.previousOutput = [.null]

def outputsValue : List TxOut → Nat
  | [] => 0
  | out :: outs => out.value.toNat + outputsValue outs

/-- What a block may create: it is halved every 150 blocks. -/
def subsidy (height : Nat) : Nat := 50 * oneBtc / 2 ^ (height / 150)

structure CoinbaseAt (height : Nat) (coinbase : Transaction) : Prop where
  isCoinbase : isCoinbase coinbase = true
  /-- The script of the input starts with the height. -/
  start : ∀ input ∈ coinbase.input, pushInt height <+: input.scriptSig
  size : ∀ input ∈ coinbase.input, 2 ≤ input.scriptSig.length ∧ input.scriptSig.length ≤ 100
  reward : outputsValue coinbase.output ≤ subsidy height

/-! ## Commitments -/

def isCommitment (out : TxOut) : Bool :=
  38 ≤ out.scriptPubkey.length && out.scriptPubkey.take 6 = [0x6a, 0x24] ++ witnessCommitmentHeader

/-- `Block::check_witness_commitment`: the last output with the form of a commitment counts. -/
def checkWitnessCommitment (C : Crypto) (M : Miner) (block : Block) : Bool :=
  block.txdata.all (fun tx => tx.input.all fun input => input.witness.isEmpty) ||
    match block.txdata with
    | [] => false
    | coinbase :: _ =>
        isCoinbase coinbase &&
        match (coinbase.output.filter isCommitment).getLast?, coinbase.input.map TxIn.witness,
          witnessRoot C M block with
        | some out, [[reserved]], some root =>
            reserved.length = 32 &&
              (out.scriptPubkey.drop 6).take 32 = computeWitnessCommitment C root reserved
        | _, _, _ => false

/-! ## Blocks -/

def medianTimePast (chain : List Block) : Option Nat :=
  pastMedian 11 (chain.map fun block => block.header.time.toNat)

/-- The block is later than the middle one of the eleven blocks before it. -/
def NotTooOld (below : List Block) (block : Block) : Prop :=
  ∀ time, medianTimePast below = some time → time < block.header.time.toNat

structure ObeysRules (C : Crypto) (M : Miner) (below : List Block) (block : Block) : Prop where
  parent : block.header.prevBlockhash = tipOf C below
  version : 4 ≤ block.header.version
  bits : block.header.bits = regtestBits
  merkleRoot : merkleRoot C block = some block.header.merkleRoot
  witnesses : checkWitnessCommitment C M block = true
  coinbase : ∃ coinbase txs, block.txdata = coinbase :: txs ∧ CoinbaseAt below.length coinbase

/-- No block of the chain is too old. -/
def TimesAscend (chain : List Block) : Prop :=
  ∀ block below, block :: below <:+ chain → NotTooOld below block

end Bip360Enforcer.Mining
