import Bip360Enforcer.Library.Demand
import Bip360Enforcer.Tapscript.Enforce

/-!
# The outputs that enforced leaves look up

Outpoints, read off the run of the interpreter in which nothing that it looks up is unknown.
-/

namespace Bip360Enforcer.Tapscript

open Except (trace)

/-! ## Signatures -/

def LeafContext.ownOutpoint (ctx : LeafContext) : List OutPoint :=
  ctx.tx.input[ctx.inputIndex]?.toList.map TxIn.previousOutput

/-- The outpoints whose outputs a signature of the type commits to. -/
def sighashOutpoints (ctx : LeafContext) (sighashType : TapSighashType) : List OutPoint :=
  if sighashType.anyoneCanPay then ctx.ownOutpoint else ctx.tx.input.map TxIn.previousOutput

section

variable (C : Crypto)

/-- Of a key or a signature that is not well formed, no hash is computed. -/
def signatureOutpoints (sigBytes pubkeyBytes : Bytes) (ctx : LeafContext) : List OutPoint :=
  if pubkeyBytes.length ≠ 32 then []
  else if !C.xonlyFromSlice pubkeyBytes then []
  else
    match TaprootSignature.fromSlice sigBytes with
    | none => []
    | some sig =>
        if ctx.annex.any (fun annex => annex.head? != some annexPrefix) then []
        else sighashOutpoints ctx sig.sighashType

/-! ## Opcodes -/

/-- What an opcode looks up on the elements `items`. -/
def opcodeOutpoints (ctx : LeafContext) (op : Opcode) (items : List Bytes) : List OutPoint :=
  match op with
  | .vault | .vaultRecover => ctx.ownOutpoint
  | .checksig | .checksigverify =>
      match items with
      | pubkey :: sig :: _ => if sig.isEmpty then [] else signatureOutpoints C sig pubkey ctx
      | _ => []
  | .checksigadd =>
      match items with
      | pubkey :: n :: sig :: _ =>
          if sig.isEmpty || !(readScriptnum n 4).isOk then [] else signatureOutpoints C sig pubkey ctx
      | _ => []
  | _ => []

def itemOutpoints (ctx : LeafContext) (m : Machine) (item : Item) : List OutPoint :=
  match item with
  | some (.op op) => opcodeOutpoints C ctx op m.stack.items
  | _ => []

/-! ## Leaves -/

def leafOutpoints (ctx : LeafContext) (initialStack : List Bytes) (deferred : List DeferredCheck) :
    List OutPoint :=
  match Stack.new initialStack with
  | .error _ => []
  | .ok stack => trace (step C ctx) (itemOutpoints C ctx) ⟨stack, deferred⟩ (instructions ctx.leaf)

def enforceInputOutpoints (tx : Transaction) (prevouts : PrevoutMap) (deferred : List DeferredCheck) :
    TxIn × Nat → List OutPoint
  | (input, inputIndex) =>
      match detectEnforcedLeaf C input.witness with
      | none => []
      | some enforced =>
          leafOutpoints C (leafContext tx prevouts inputIndex input enforced) enforced.stack deferred

def enforceOutpoints (tx : Transaction) (prevouts : PrevoutMap) : List OutPoint :=
  trace (enforceInput C tx prevouts) (enforceInputOutpoints C tx prevouts) [] tx.input.zipIdx

end

end Bip360Enforcer.Tapscript
