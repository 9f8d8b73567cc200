import Bip360Enforcer.Library.SignMagnitude
import Bip360Enforcer.Tapscript.Interp

/-!
# The reference semantics of tapscript

BIP342 with OP_CAT, OP_CHECKTEMPLATEVERIFY, OP_VAULT and OP_VAULT_RECOVER as BIP347, BIP119 and
BIP345 define them, and without the signature operation budget.
-/

namespace Bip360Enforcer.Tapscript.Bip342

open SignMagnitude (value encode Minimal)

/-- What the rules are applied to, and the oracles they consult. -/
structure Rules where
  tx : Transaction
  inputIndex : Nat
  /-- The output that the input spends, where it matters. -/
  spent : Option TxOut
  control : ControlBlock
  /-- Whether non-minimal numbers fail, as they do for relay. -/
  minimalData : Bool
  /-- The message of a signature with the given hash type, unless that type is not applicable. -/
  sighash : TapSighashType → Option Bytes
  /-- The opcodes that the interpreter does not implement. -/
  other : Opcode → List Bytes × List Bytes × List Bool → Option (List Bytes × List Bytes × List Bool)

structure State where
  stack : List Bytes
  altstack : List Bytes
  /-- The branches of the OP_IFs around the current opcode. -/
  conditions : List Bool
  deriving DecidableEq, Repr

section

variable (C : Crypto) (R : Rules)

/-! ## Numbers -/

def num (minimal : Bool) (maxLen : Nat) (item : Bytes) : Option Int :=
  if item.length ≤ maxLen ∧ (minimal → Minimal item) then some (value item) else none

/-- Core's `CastToBool`. -/
def castToBool (item : Bytes) : Bool := value item ≠ 0

/-- A number that names an output. -/
def outputIndex (item : Bytes) : Option TxOut := do
  let idx ← num true 4 item
  if idx < 0 then none else R.tx.output[idx.toNat]?

/-! ## Signatures -/

/-- The body and hash type of a signature: the default type is never written out. -/
def splitSignature (sig : Bytes) : Option (Bytes × TapSighashType) :=
  if sig.length = 64 then some (sig, .default)
  else if sig.length = 65 then
    match sig.getLast? with
    | none => none
    | some hashType =>
        if hashType = 0 then none
        else (TapSighashType.fromConsensusU8 hashType).map fun t => (sig.dropLast, t)
  else none

def validSignature (pubkey sig : Bytes) : Bool :=
  match splitSignature sig with
  | none => false
  | some (body, hashType) =>
      match R.sighash hashType with
      | none => false
      | some message => C.xonlyValid pubkey && C.schnorrVerify body message pubkey

/-- The common rules of the signature opcodes: whether a signature was given, unless they fail. -/
def checkSignature (pubkey sig : Bytes) : Option Bool :=
  if pubkey.length = 0 then none
  else if sig.isEmpty then some false
  else if pubkey.length = 32 then if validSignature C R pubkey sig then some true else none
  else some true

/-! ## Timelocks -/

/-- BIP112: the sequence number of the input is of the same type and not below `n`. -/
def sequenceSatisfied (n : Nat) : Bool :=
  if n.testBit 31 then true
  else
    match R.tx.input[R.inputIndex]? with
    | none => false
    | some input =>
        let sequence := input.sequence.toNat
        2 ≤ R.tx.version.toUInt32.toNat && !sequence.testBit 31
          && n.testBit 22 == sequence.testBit 22 && n % 2 ^ 16 ≤ sequence % 2 ^ 16

/-- BIP65: the locktime of the transaction is of the same type, not below `n`, and in force. -/
def locktimeSatisfied (n : Nat) : Bool :=
  match R.tx.input[R.inputIndex]? with
  | none => false
  | some input =>
      (n < 500000000) == (R.tx.lockTime.toNat < 500000000) && n ≤ R.tx.lockTime.toNat
        && input.sequence != 0xffffffff

/-! ## Vaults -/

/-- The revault amount and output agree: both given, or neither. -/
def revaultAllowed (revaultIdx revaultAmount : Int) (spent : TxOut) : Bool :=
  if revaultIdx = -1 then revaultAmount = 0
  else 0 < revaultAmount && 0 ≤ revaultIdx &&
    (R.tx.output[revaultIdx.toNat]?).any fun out => out.scriptPubkey == spent.scriptPubkey

def vault : List Bytes → Option (List Bytes)
  | body :: pushCount :: below => do
      let count ← num true 4 pushCount
      if count < 0 then none
      else
        match below.take count.toNat, below.drop count.toNat with
        | pushed, triggerIdx :: revaultIdx :: revaultAmount :: rest => do
            let triggerOut ← outputIndex R triggerIdx
            let revault ← num true 4 revaultIdx
            let amount ← num true 7 revaultAmount
            let spent ← R.spent
            let leafUpdate := pushed.reverse.flatMap pushMinimal ++ body
            if isP2tr triggerOut.scriptPubkey
                ∧ triggerOut.scriptPubkey = reconstructTriggerSpk C R.control leafUpdate
                ∧ revaultAllowed R revault amount spent then
              some ([1] :: rest)
            else none
        | _, _ => none
  | _ => none

def vaultRecover : List Bytes → Option (List Bytes)
  | hash :: voutIdx :: rest => do
      let recoveryOut ← outputIndex R voutIdx
      if hash.length = 32 ∧ vaultRecoverySpkHash C recoveryOut.scriptPubkey = hash then
        some ([1] :: rest)
      else none
  | _ => none

/-! ## Opcodes -/

/-- The opcodes that act on the main stack alone; `none` is failure of the script. -/
def stackOp (op : Opcode) (stack : List Bytes) : Option (List Bytes) :=
  match op, stack with
  | .pushnum n, stack => some ([UInt8.ofNat (n + 1)] :: stack)
  | .dup, x :: stack => some (x :: x :: stack)
  | .drop, _ :: stack => some stack
  | .swap, x :: y :: stack => some (y :: x :: stack)
  | .equal, x :: y :: stack => some ((if x = y then [1] else []) :: stack)
  | .equalverify, x :: y :: stack => if x = y then some stack else none
  | .verify, x :: stack => if castToBool x then some stack else none
  | .sha256, x :: stack => some (C.sha256 x :: stack)
  | .hash256, x :: stack => some (C.sha256d x :: stack)
  | .hash160, x :: stack => some (C.hash160 x :: stack)
  | .ripemd160, x :: stack => some (C.ripemd160 x :: stack)
  | .cat, x₂ :: x₁ :: stack => some ((x₁ ++ x₂) :: stack)
  | .ctv, x :: stack =>
      if x.length = 32 ∧ x ≠ defaultCheckTemplateVerifyHash C R.tx R.inputIndex then none
      else some (x :: stack)
  | .csv, x :: stack => do
      let n ← num R.minimalData 5 x
      if 0 ≤ n ∧ sequenceSatisfied R n.toNat then some (x :: stack) else none
  | .cltv, x :: stack => do
      let n ← num R.minimalData 5 x
      if 0 ≤ n ∧ locktimeSatisfied R n.toNat then some (x :: stack) else none
  | .checksig, pubkey :: sig :: stack => do
      let given ← checkSignature C R pubkey sig
      some ((if given then [1] else []) :: stack)
  | .checksigverify, pubkey :: sig :: stack => do
      let given ← checkSignature C R pubkey sig
      if given then some stack else none
  | .checksigadd, pubkey :: n :: sig :: stack => do
      let n ← num R.minimalData 4 n
      let given ← checkSignature C R pubkey sig
      some (encode (if given then n + 1 else n) :: stack)
  | .vault, stack => vault C R stack
  | .vaultRecover, stack => vaultRecover C R stack
  | _, _ => none

def implemented : Opcode → Bool
  | .other _ | .booland | .substr | .checkmultisig | .checkmultisigverify => false
  | _ => true

/-- The limits on the stacks after every opcode. -/
def withinLimits (st : State) : Bool :=
  st.stack.length + st.altstack.length ≤ maxStackSize
    && st.stack.all fun item => item.length ≤ maxScriptElementSize

/-- One instruction, before the limits are checked. -/
def execItem (st : State) : Item → Option State
  | none => none
  | some (.pushBytes bytes) =>
      if st.conditions.all id then some { st with stack := bytes :: st.stack } else some st
  | some (.op op) =>
      if implemented op then
        if st.conditions.all id then
          (stackOp C R op st.stack).map fun stack => { st with stack := stack }
        else some st
      else
        (R.other op (st.stack, st.altstack, st.conditions)).map fun (stack, altstack, conditions) =>
          ⟨stack, altstack, conditions⟩

def step (st : State) (item : Item) : Option State := do
  let st ← execItem C R st item
  if withinLimits st then some st else none

/-! ## Scripts -/

/-- The bytes that are OP_SUCCESSx, less the four that have got a meaning. -/
def isOpSuccess (byte : Nat) : Bool :=
  byte = 80 || byte = 98 || (126 ≤ byte && byte ≤ 129) || (131 ≤ byte && byte ≤ 134)
    || byte = 137 || byte = 138 || byte = 141 || byte = 142 || (149 ≤ byte && byte ≤ 153)
    || (187 ≤ byte && byte ≤ 250)

/-- Whether an OP_SUCCESSx is read before the script fails to parse. -/
def hasOpSuccess : List Item → Bool
  | some (.op op) :: items => isOpSuccess op.toU8.toNat || hasOpSuccess items
  | some (.pushBytes _) :: items => hasOpSuccess items
  | none :: _ => false
  | [] => false

/-- The state that execution starts in; the witness lists the stack from its bottom. -/
def initialState (initialStack : List Bytes) : State := ⟨initialStack.reverse, [], []⟩

/-- The end of a script: one true element, outside all branches. -/
def acceptsState (st : State) : Bool :=
  match st.stack, st.conditions with
  | [item], [] => castToBool item
  | _, _ => false

def succeeds (leaf : Script) (initialStack : List Bytes) : Bool :=
  hasOpSuccess (instructions leaf) ||
    (withinLimits (initialState initialStack)
      && ((instructions leaf).foldlM (step C R) (initialState initialStack)).any acceptsState)

end

end Bip360Enforcer.Tapscript.Bip342
