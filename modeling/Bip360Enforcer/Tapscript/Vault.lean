import Bip360Enforcer.Library.SignMagnitude
import Bip360Enforcer.Library.Tally
import Bip360Enforcer.Tapscript.Enforce

/-!
# What vault executions assign to outputs

Read off the stack as BIP345 says, without the checks the interpreter queues.
-/

namespace Bip360Enforcer.Tapscript

open SignMagnitude (value)

/-- One execution of a vault opcode: the outputs it names and the amounts it assigns to them. -/
inductive VaultExecution where
  | vault (triggerIdx triggerAmount revaultIdx revaultAmount : Nat)
  | recover (voutIdx amount : Nat)
  deriving DecidableEq, Repr

namespace VaultExecution

def assigned : VaultExecution → List (Nat × Nat)
  | vault triggerIdx triggerAmount revaultIdx revaultAmount =>
      [(triggerIdx, triggerAmount), (revaultIdx, revaultAmount)]
  | recover voutIdx amount => [(voutIdx, amount)]

/-- All that the execution assigns. -/
def total : VaultExecution → Nat
  | vault _ triggerAmount _ revaultAmount => triggerAmount + revaultAmount
  | recover _ amount => amount

end VaultExecution

/-- The execution of `op` on the elements `items`, by an input of value `inputValue`. -/
def vaultExecution (inputValue : Nat) (op : Opcode) (items : List Bytes) : List VaultExecution :=
  match op, items with
  | .vault, _ :: pushCount :: below =>
      match below.drop (value pushCount).toNat with
      | triggerIdx :: revaultIdx :: revaultAmount :: _ =>
          [.vault (value triggerIdx).toNat (inputValue - (value revaultAmount).toNat)
            (value revaultIdx).toNat (value revaultAmount).toNat]
      | _ => []
  | .vaultRecover, _ :: voutIdx :: _ => [.recover (value voutIdx).toNat inputValue]
  | _, _ => []

/-- The value of the input; zero when it is not known. -/
def LeafContext.inputValue (ctx : LeafContext) : Nat :=
  (ctx.inputTxout.map fun txout => txout.value.toNat).getD 0

def itemExecutions (ctx : LeafContext) (stack : Stack) : Item → List VaultExecution
  | some (.op op) => vaultExecution ctx.inputValue op stack.items
  | _ => []

/-- The vault executions of a run from `stack` on, up to its end or failure. -/
def runExecutions (C : Crypto) (ctx : LeafContext) (stack : Stack) : List Item → List VaultExecution
  | [] => []
  | item :: items =>
      itemExecutions ctx stack item ++
        match execItem C ctx stack item with
        | .ok (stack, _) => runExecutions C ctx stack items
        | .error _ => []

def inputExecutions (C : Crypto) (tx : Transaction) (prevouts : PrevoutMap) :
    TxIn × Nat → List VaultExecution
  | (input, inputIndex) =>
      match detectEnforcedLeaf C input.witness with
      | none => []
      | some enforced =>
          match Stack.new enforced.stack with
          | .error _ => []
          | .ok stack =>
              runExecutions C (leafContext tx prevouts inputIndex input enforced) stack
                (instructions enforced.leaf)

/-- The amounts that the executions of all inputs of `tx` assign, by output index. -/
def txAssigned (C : Crypto) (tx : Transaction) (prevouts : PrevoutMap) : List (Nat × Nat) :=
  (tx.input.zipIdx.flatMap (inputExecutions C tx prevouts)).flatMap VaultExecution.assigned

/-- The value of the output at `idx`; zero when there is none. -/
def outputValue (tx : Transaction) (idx : Nat) : Nat :=
  ((tx.output[idx]?).map fun out => out.value.toNat).getD 0

end Bip360Enforcer.Tapscript
