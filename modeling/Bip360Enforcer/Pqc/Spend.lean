import Bip360Enforcer.Pqc.LeafScript
import Bip360Enforcer.Pqc.Schemes
import Mathlib.Data.Finset.Insert

/-!
# Validation of P2MR script-path spends
-/

namespace Bip360Enforcer.Pqc

inductive SpendError where
  | emptyWitness
  | witnessStackTooLarge
  | incompleteWitness
  | signatureWeightExceeded (sigWu : Nat)
  | leafScriptTooLarge
  | invalidP2mrLeafVersion
  | leafScript (source : LeafScriptError)
  | missingPrevout (inputIndex : Nat)
  | unverifiableSpend (inputIndex : Nat)
  | output (source : P2mrOutputError)
  | merkle (source : MerkleError)
  | scheme (source : SchemeError)
  deriving DecidableEq, Repr

section

variable (C : Crypto) (clock : Clock)

/-! ## One input -/

def verifySite (ctx : TapscriptVerifyContext) (timer : Timer) (entry : SigCheckSite × Bytes) :
    Except SpendError Timer :=
  (verifyOverloadedChecksig C clock entry.1.pubkey entry.2 ctx timer).mapError .scheme

/-- The witness is its signatures, the leaf script and the control block, in this order. -/
def validateP2mrInputSpend (tx : Transaction) (inputIndex : Nat) (prevout : TxOut)
    (prevouts : Prevouts) (timer : Timer) : Except SpendError Timer :=
  match tx.input[inputIndex]? with
  | none => .error (.missingPrevout inputIndex)
  | some input =>
      let witness := input.witness
      if witness.isEmpty then .error .emptyWitness
      else if witness.length > maxP2mrWitnessStack then .error .witnessStackTooLarge
      else do
        let merkleRoot ← (validateP2mrOutput prevout.scriptPubkey).mapError .output
        match witness.reverse with
        | controlBlockBytes :: leafScript :: sigs =>
            let signatures := sigs.reverse
            if leafScript.length > maxP2mrLeafScriptSize then .error .leafScriptTooLarge
            else if signatures.length = 0 then .error .emptyWitness
            else
              let sigWu := (signatures.map fun sig => estimateSigWu sig.length).sum
              if sigWu > maxPqcSigWuPerInput then .error (.signatureWeightExceeded sigWu)
              else do
                let parsed ←
                  (validateWitnessSigCount leafScript signatures.length).mapError .leafScript
                (verifyMerklePath C leafScript merkleRoot controlBlockBytes).mapError .merkle
                match leafVersionFromConsensus p2mrLeafVersion with
                | none => .error .invalidP2mrLeafVersion
                | some leafVersion =>
                    (parsed.sigSites.zip signatures).foldlM
                      (verifySite C clock ⟨tx, inputIndex, prevouts, C.tapLeafHash leafVersion leafScript⟩)
                      timer
        | _ => .error .incompleteWitness

/-! ## Transactions -/

def validateP2mrOutputs (tx : Transaction) : Except SpendError Unit :=
  tx.output.forM fun output =>
    if isP2mr output then do
      let _ ← (validateP2mrOutput output.scriptPubkey).mapError .output
      .ok ()
    else .ok ()

/-- The outputs that the inputs of `tx` spend, unless one of them is unknown. -/
def allPrevouts (tx : Transaction) (availablePrevouts : PrevoutMap) : Option (List TxOut) :=
  tx.input.mapM fun input => availablePrevouts.lookup input.previousOutput

/-- `none` when the hash type commits to the output of an input that is not available. -/
def prevoutsForP2mrInput (tx : Transaction) (inputIndex : Nat) (prevout : TxOut)
    (availablePrevouts : PrevoutMap) (sighashType : TapSighashType) : Option Prevouts :=
  if sighashType.anyoneCanPay then some (.one inputIndex prevout)
  else if tx.input.length = 1 then some (.all [prevout])
  else (allPrevouts tx availablePrevouts).map .all

/-- What is known of the outputs that a transaction may spend. -/
structure SpendView where
  availablePrevouts : PrevoutMap
  chainP2mrUtxos : Option PrevoutMap
  spentP2mrInBlock : Option (Finset OutPoint)

/-- Whether `outpoint` is a P2MR output of the chain, or was one spent earlier in the block. -/
def SpendView.wasP2mr (view : SpendView) (outpoint : OutPoint) : Bool :=
  view.chainP2mrUtxos.any (fun chain => outpoint ∈ chain)
    || view.spentP2mrInBlock.any (fun spent => outpoint ∈ spent)

def validateInput (tx : Transaction) (view : SpendView) (timer : Timer) :
    TxIn × Nat → Except SpendError Timer
  | (input, inputIndex) =>
      match view.availablePrevouts.lookup input.previousOutput with
      | none =>
          if !input.witness.isEmpty && view.wasP2mr input.previousOutput then
            .error (.missingPrevout inputIndex)
          else .ok timer
      | some prevout =>
          if !isP2mr prevout then .ok timer
          else if input.witness.isEmpty then .error .emptyWitness
          else
            let sighashType := parseSighashType (input.witness.head?.getD [])
            match prevoutsForP2mrInput tx inputIndex prevout view.availablePrevouts sighashType with
            | none => .error (.unverifiableSpend inputIndex)
            | some prevouts => validateP2mrInputSpend C clock tx inputIndex prevout prevouts timer

def validateTransactionSpends (tx : Transaction) (view : SpendView) (timer : Timer) :
    Except SpendError Timer := do
  validateP2mrOutputs tx
  tx.input.zipIdx.foldlM (validateInput C clock tx view) timer

end

end Bip360Enforcer.Pqc
