import Bip360Enforcer.Tapscript.Interp

/-!
# Enforcement of the leaves a transaction reveals
-/

namespace Bip360Enforcer.Tapscript

inductive TapscriptError where
  | interp (inputIndex : Nat) (source : InterpError)
  | deferred (source : InterpError)
  deriving DecidableEq, Repr

/-! ## Revealed leaves -/

/-- The opcodes whose presence in a leaf triggers enforcement. -/
def enforcedOpcodes : List Opcode := [.cat, .ctv, .vault, .vaultRecover]

def vaultOpcodes : List Opcode := [.vault, .vaultRecover]

/-- Whether one of `opcodes` is read before the first parse error. -/
def usesOpcode (opcodes : List Opcode) : List Item → Bool
  | some (.op op) :: items => opcodes.contains op || usesOpcode opcodes items
  | some (.pushBytes _) :: items => usesOpcode opcodes items
  | none :: _ => false
  | [] => false

def leafUsesVaultOpcode (leaf : Script) : Bool := usesOpcode vaultOpcodes (instructions leaf)

def leafUsesEnforcedOpcode (leaf : Script) : Bool :=
  usesOpcode enforcedOpcodes (instructions leaf)

/-- The pieces of a witness that reveals an enforced leaf; the stack is listed from its bottom. -/
structure EnforcedLeaf where
  leaf : Script
  stack : List Bytes
  control : ControlBlock
  annex : Option Bytes
  deriving DecidableEq, Repr

/-- Take the annex off the end of a witness, given last element first. -/
def splitAnnex : List Bytes → Option Bytes × List Bytes
  | last :: elems => if last.head? = some annexPrefix then (some last, elems) else (none, last :: elems)
  | [] => (none, [])

def detectEnforcedLeaf (C : Crypto) (witness : List Bytes) : Option EnforcedLeaf :=
  if witness.length < 2 then none
  else
    match splitAnnex witness.reverse with
    | (annex, controlBlock :: leaf :: elems) => do
        let control ← ControlBlock.decode C controlBlock
        if control.leafVersion ≠ tapscriptLeafVersion then none
        else if !leafUsesEnforcedOpcode leaf then none
        else some ⟨leaf, elems.reverse, control, annex⟩
    | _ => none

def inputRevealsVaultLeaf (C : Crypto) (witness : List Bytes) : Bool :=
  match detectEnforcedLeaf C witness with
  | some enforced => leafUsesVaultOpcode enforced.leaf
  | none => false

/-! ## Transactions -/

/-- What the leaf that `input` reveals is executed with. -/
def leafContext (tx : Transaction) (prevouts : PrevoutMap) (inputIndex : Nat) (input : TxIn)
    (enforced : EnforcedLeaf) : LeafContext where
  tx := tx
  inputIndex := inputIndex
  prevouts := prevouts
  inputTxout := prevouts.lookup input.previousOutput
  control := enforced.control
  annex := enforced.annex
  leaf := enforced.leaf

def enforceInput (C : Crypto) (tx : Transaction) (prevouts : PrevoutMap)
    (deferred : List DeferredCheck) : TxIn × Nat → Except TapscriptError (List DeferredCheck)
  | (input, inputIndex) =>
      match detectEnforcedLeaf C input.witness with
      | none => .ok deferred
      | some enforced =>
          (executeLeaf C (leafContext tx prevouts inputIndex input enforced) enforced.stack
            deferred).mapError (.interp inputIndex)

def enforceTransaction (C : Crypto) (tx : Transaction) (prevouts : PrevoutMap) :
    Except TapscriptError Unit := do
  let deferred ← tx.input.zipIdx.foldlM (enforceInput C tx prevouts) []
  (evaluateDeferredChecks deferred tx).mapError .deferred

end Bip360Enforcer.Tapscript
