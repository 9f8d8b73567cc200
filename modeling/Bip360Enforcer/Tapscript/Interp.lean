import Bip360Enforcer.Tapscript.Stack

/-!
# The interpreter of enforced tapscript leaves
-/

namespace Bip360Enforcer.Tapscript

open LittleEndian (encode)

def sequenceLocktimeDisableFlag : Int64 := (1 : Int64) <<< 31

def sequenceLocktimeTypeFlag : Int64 := (1 : Int64) <<< 22

def sequenceLocktimeMask : Int64 := 0x0000ffff

def locktimeThreshold : Int64 := 500000000

/-- A value check between inputs, made once after the leaves of all inputs have run. -/
inductive DeferredCheck where
  /-- `revaultIdx` is -1 when there is no revault output. -/
  | trigger (inputAmount revaultAmount : UInt64) (triggerIdx : Nat) (revaultIdx : Int64)
  | recovery (inputAmount : UInt64) (voutIdx : Nat)
  deriving DecidableEq, Repr

/-- What the execution of one input's leaf reads. -/
structure LeafContext where
  tx : Transaction
  inputIndex : Nat
  prevouts : PrevoutMap
  inputTxout : Option TxOut
  control : ControlBlock
  annex : Option Bytes
  leaf : Script

/-- The stack of the running leaf and the checks queued so far. -/
structure Machine where
  stack : Stack
  deferred : List DeferredCheck

section

variable (C : Crypto)

/-! ## Hashes the opcodes compare with -/

def vaultRecoverySpkTag : Bytes := "VaultRecoverySPK".toList.map fun c => UInt8.ofNat c.toNat

def vaultRecoverySpkHash (spk : Script) : Bytes :=
  C.taggedHash vaultRecoverySpkTag (serializeScript spk)

def defaultCheckTemplateVerifyHash (tx : Transaction) (inputIndex : Nat) : Bytes :=
  let sequencesHash := C.sha256 (tx.input.flatMap fun input => encode 4 input.sequence.toNat)
  let outputsHash := C.sha256 (tx.output.flatMap TxOut.serialize)
  let scriptSigsHash :=
    if tx.input.any (fun input => !input.scriptSig.isEmpty) then
      C.sha256 (tx.input.flatMap fun input => serializeScript input.scriptSig)
    else []
  C.sha256 (encode 4 tx.version.toUInt32.toNat ++ encode 4 tx.lockTime.toNat ++ scriptSigsHash
    ++ encode 4 tx.input.length ++ sequencesHash ++ encode 4 tx.output.length ++ outputsHash
    ++ encode 4 inputIndex)

/-- The output script of the tree in which the running leaf is replaced by `leafUpdate`. -/
def reconstructTriggerSpk (control : ControlBlock) (leafUpdate : Script) : Script :=
  let node := control.merkleBranch.foldl C.tapBranchHash
    (C.tapLeafHash tapscriptLeafVersion leafUpdate)
  newP2trTweaked (C.tapTweak control.internalKey node)

/-! ## Signatures -/

/-- The outputs spent by all inputs, in order. -/
def orderedPrevouts (tx : Transaction) (prevouts : PrevoutMap) : Except InterpError (List TxOut) :=
  tx.input.mapM fun input =>
    match prevouts.lookup input.previousOutput with
    | some txout => .ok txout
    | none => .error .missingPrevout

structure TaprootSignature where
  signature : Bytes
  sighashType : TapSighashType
  deriving DecidableEq, Repr

/-- `taproot::Signature::from_slice`. -/
def TaprootSignature.fromSlice (sl : Bytes) : Option TaprootSignature :=
  if sl.length = 64 then some ⟨sl, .default⟩
  else if sl.length = 65 then
    (TapSighashType.fromConsensusU8 (sl.getLast?.getD 0)).map fun t => ⟨sl.dropLast, t⟩
  else none

/-- The outputs the signature hash of type `sighashType` is computed from. -/
def sighashPrevouts (ctx : LeafContext) (sighashType : TapSighashType) :
    Except InterpError Prevouts :=
  if sighashType.anyoneCanPay then
    match ctx.inputTxout with
    | some txout => .ok (.one ctx.inputIndex txout)
    | none => .error .missingPrevout
  else do
    let all ← orderedPrevouts ctx.tx ctx.prevouts
    .ok (.all all)

def verifySchnorr (sigBytes pubkeyBytes : Bytes) (ctx : LeafContext) : Except InterpError Bool :=
  if pubkeyBytes.length ≠ 32 then .error (.unknownPubkeyType pubkeyBytes.length)
  else if !C.xonlyFromSlice pubkeyBytes then .error (.unknownPubkeyType pubkeyBytes.length)
  else
    match TaprootSignature.fromSlice sigBytes with
    | none => .error .badSignatureEncoding
    | some sig =>
        if ctx.annex.any (fun annex => annex.head? != some annexPrefix) then .error .malformedScript
        else do
          let prevouts ← sighashPrevouts ctx sig.sighashType
          match C.taprootSignatureHash ctx.tx ctx.inputIndex prevouts ctx.annex
            (C.tapLeafHash tapscriptLeafVersion ctx.leaf) sig.sighashType with
          | .error _ => .error .sighashError
          | .ok sighash => .ok (C.schnorrVerify sig.signature sighash pubkeyBytes)

end

/-! ## Timelocks -/

def checkSequence (n : Int64) (tx : Transaction) (inputIndex : Nat) : Except InterpError Unit :=
  if n &&& sequenceLocktimeDisableFlag ≠ 0 then .ok ()
  else if tx.version.toUInt32 < 2 then .error .timelockNotSatisfied
  else
    match tx.input[inputIndex]? with
    | none => .error .indexOutOfRange
    | some input =>
        let txSeq := input.sequence.toUInt64.toInt64
        if txSeq &&& sequenceLocktimeDisableFlag ≠ 0 then .error .timelockNotSatisfied
        else
          let mask := sequenceLocktimeTypeFlag ||| sequenceLocktimeMask
          let txMasked := txSeq &&& mask
          let nMasked := n &&& mask
          let sameType :=
            (txMasked < sequenceLocktimeTypeFlag && nMasked < sequenceLocktimeTypeFlag)
              || (sequenceLocktimeTypeFlag ≤ txMasked && sequenceLocktimeTypeFlag ≤ nMasked)
          if !sameType || txMasked < nMasked then .error .timelockNotSatisfied else .ok ()

def checkLocktime (n : Int64) (tx : Transaction) (inputIndex : Nat) : Except InterpError Unit :=
  let txLock := tx.lockTime.toUInt64.toInt64
  let sameType := (txLock < locktimeThreshold && n < locktimeThreshold)
    || (locktimeThreshold ≤ txLock && locktimeThreshold ≤ n)
  if !sameType || n > txLock then .error .timelockNotSatisfied
  else
    match tx.input[inputIndex]? with
    | none => .error .indexOutOfRange
    | some input =>
        if input.sequence = 0xffffffff then .error .timelockNotSatisfied else .ok ()

/-! ## Vaults -/

def checkedAdd (a b : UInt64) : Option UInt64 :=
  if a.toNat + b.toNat < 2 ^ 64 then some (a + b) else none

def checkedSub (a b : UInt64) : Option UInt64 :=
  if b ≤ a then some (a - b) else none

/-- Pop a number of at most `maxLen` bytes. -/
def popNum (stack : Stack) (opcode : String) (maxLen : Nat) :
    Except InterpError (Int64 × Stack) := do
  let (item, stack) ← stack.pop opcode
  let n ← readScriptnum item maxLen
  .ok (n, stack)

/-- What OP_VAULT takes from the stack. -/
structure VaultArgs where
  leafUpdate : Script
  triggerIdx : Int64
  revaultIdx : Int64
  revaultAmount : Int64
  deriving DecidableEq, Repr

/-- Pop the arguments of OP_VAULT, in the order and with the checks of `exec_op_vault`. -/
def popVaultArgs (stack : Stack) (numOutputs : Int64) : Except InterpError (VaultArgs × Stack) := do
  let (body, stack) ← stack.pop "OP_VAULT"
  let (pushCount, stack) ← popNum stack "OP_VAULT" 4
  if pushCount < 0 then .error .vaultBadStack
  else
    let pushCount := pushCount.toUInt64.toNat
    if stack.items.length < 3 + pushCount then .error .vaultBadStack
    else
      let (items, stack) ← stack.popN "OP_VAULT" pushCount
      let leafUpdate := items.reverse.flatMap pushMinimal ++ body
      let (triggerIdx, stack) ← popNum stack "OP_VAULT" 4
      if triggerIdx < 0 ∨ numOutputs ≤ triggerIdx then .error .vaultBadStack
      else
        let (revaultIdx, stack) ← popNum stack "OP_VAULT" 4
        if numOutputs ≤ revaultIdx ∨ (revaultIdx < 0 ∧ revaultIdx ≠ -1) then .error .vaultBadStack
        else
          let (revaultAmount, stack) ← popNum stack "OP_VAULT" 7
          if revaultAmount < 0 ∨ (revaultAmount > 0 ∧ revaultIdx < 0)
              ∨ (revaultAmount = 0 ∧ revaultIdx ≠ -1) then .error .vaultBadStack
          else .ok (⟨leafUpdate, triggerIdx, revaultIdx, revaultAmount⟩, stack)

def outputAt (tx : Transaction) (idx : Int64) : Except InterpError TxOut :=
  match tx.output[idx.toUInt64.toNat]? with
  | some out => .ok out
  | none => .error .indexOutOfRange

/-- The value of the revault output, whose script has to be the input's; zero without one. -/
def checkRevaultOut (tx : Transaction) (inputTxout : TxOut) (revaultIdx : Int64) :
    Except InterpError UInt64 :=
  if 0 ≤ revaultIdx then do
    let revaultOut ← outputAt tx revaultIdx
    if revaultOut.scriptPubkey ≠ inputTxout.scriptPubkey then .error .vaultRevaultMismatch
    else .ok revaultOut.value
  else .ok 0

/-- Run OP_VAULT on `stack`; what is returned beside the stack is the check it queues. -/
def execOpVault (C : Crypto) (ctx : LeafContext) (stack : Stack) :
    Except InterpError (Stack × DeferredCheck) :=
  match ctx.inputTxout with
  | none => .error .missingPrevout
  | some inputTxout => do
      let (args, stack) ← popVaultArgs stack (Int64.ofNat ctx.tx.output.length)
      let triggerOut ← outputAt ctx.tx args.triggerIdx
      if !isP2tr triggerOut.scriptPubkey then .error .vaultTriggerNotV1
      else if triggerOut.scriptPubkey ≠ reconstructTriggerSpk C ctx.control args.leafUpdate then
        .error .vaultTriggerMismatch
      else
        let revaultValue ← checkRevaultOut ctx.tx inputTxout args.revaultIdx
        match checkedAdd triggerOut.value revaultValue with
        | none => .error .vaultValueNotPreserved
        | some total =>
            if total < inputTxout.value then .error .vaultValueNotPreserved
            else
              let check := DeferredCheck.trigger inputTxout.value args.revaultAmount.toUInt64
                args.triggerIdx.toUInt64.toNat args.revaultIdx
              let stack ← stack.push [1]
              .ok (stack, check)

def execOpVaultRecover (C : Crypto) (ctx : LeafContext) (stack : Stack) :
    Except InterpError (Stack × DeferredCheck) :=
  match ctx.inputTxout with
  | none => .error .missingPrevout
  | some inputTxout => do
      let numOutputs := Int64.ofNat ctx.tx.output.length
      let (hashArg, stack) ← stack.pop "OP_VAULT_RECOVER"
      if hashArg.length ≠ recoverySpkHashLen then .error (.vaultRecoverBadHashLen hashArg.length)
      else
        let (voutIdx, stack) ← popNum stack "OP_VAULT_RECOVER" 4
        if voutIdx < 0 ∨ numOutputs ≤ voutIdx then .error .vaultBadStack
        else
          let recoveryOut ← outputAt ctx.tx voutIdx
          if vaultRecoverySpkHash C recoveryOut.scriptPubkey ≠ hashArg then
            .error .vaultRecoverMismatch
          else
            let check := DeferredCheck.recovery inputTxout.value voutIdx.toUInt64.toNat
            let stack ← stack.push [1]
            .ok (stack, check)

/-! ## Opcodes -/

/-- Replace the top element by its image under `hash`. -/
def hashTop (stack : Stack) (opcode : String) (hash : Bytes → Bytes) : Except InterpError Stack := do
  let (top, stack) ← stack.pop opcode
  stack.push (hash top)

/-- The signature check of a non-empty signature: a failed one fails the script. -/
def requireSchnorr (C : Crypto) (sig pubkey : Bytes) (ctx : LeafContext) :
    Except InterpError Unit := do
  let valid ← verifySchnorr C sig pubkey ctx
  if valid then .ok () else .error .schnorrVerifyFailed

/-- The opcodes that touch only the stack. -/
def execStackOp (C : Crypto) (ctx : LeafContext) (op : Opcode) (stack : Stack) :
    Except InterpError Stack :=
  match op with
  | .cat => do
      let (x2, stack) ← stack.pop "OP_CAT"
      let (x1, stack) ← stack.pop "OP_CAT"
      if (x1 ++ x2).length > maxScriptElementSize then .error (.elementTooLarge (x1 ++ x2).length)
      else stack.push (x1 ++ x2)
  | .ctv => do
      let arg ← stack.top "OP_CHECKTEMPLATEVERIFY"
      if arg.length ≠ ctvHashLen then .error (.ctvBadArgLength arg.length)
      else if arg ≠ defaultCheckTemplateVerifyHash C ctx.tx ctx.inputIndex then
        .error .ctvTemplateMismatch
      else .ok stack
  | .pushnum n => stack.push [UInt8.ofNat (n + 1)]
  | .dup => do
      let (top, stack) ← stack.pop "OP_DUP"
      let stack ← stack.push top
      stack.push top
  | .drop => do
      let (_, stack) ← stack.pop "OP_DROP"
      .ok stack
  | .swap => do
      let (a, stack) ← stack.pop "OP_SWAP"
      let (b, stack) ← stack.pop "OP_SWAP"
      let stack ← stack.push a
      stack.push b
  | .equal => do
      let (a, stack) ← stack.pop "OP_EQUAL"
      let (b, stack) ← stack.pop "OP_EQUAL"
      stack.push (if a = b then [1] else [])
  | .equalverify => do
      let (a, stack) ← stack.pop "OP_EQUALVERIFY"
      let (b, stack) ← stack.pop "OP_EQUALVERIFY"
      if a = b then .ok stack else .error .verifyFailed
  | .verify => do
      let (top, stack) ← stack.pop "OP_VERIFY"
      if isTruthy top then .ok stack else .error .verifyFailed
  | .sha256 => hashTop stack "OP_SHA256" C.sha256
  | .hash256 => hashTop stack "OP_HASH256" C.sha256d
  | .hash160 => hashTop stack "OP_HASH160" C.hash160
  | .ripemd160 => hashTop stack "OP_RIPEMD160" C.ripemd160
  | .csv => do
      let top ← stack.top "OP_CHECKSEQUENCEVERIFY"
      let n ← readScriptnum top 5
      if n < 0 then .error .timelockNotSatisfied
      else
        checkSequence n ctx.tx ctx.inputIndex
        .ok stack
  | .cltv => do
      let top ← stack.top "OP_CHECKLOCKTIMEVERIFY"
      let n ← readScriptnum top 5
      if n < 0 then .error .timelockNotSatisfied
      else
        checkLocktime n ctx.tx ctx.inputIndex
        .ok stack
  | .checksig => do
      let (pubkey, stack) ← stack.pop "OP_CHECKSIG"
      let (sig, stack) ← stack.pop "OP_CHECKSIG"
      if sig.isEmpty then stack.push []
      else
        requireSchnorr C sig pubkey ctx
        stack.push [1]
  | .checksigverify => do
      let (pubkey, stack) ← stack.pop "OP_CHECKSIGVERIFY"
      let (sig, stack) ← stack.pop "OP_CHECKSIGVERIFY"
      if sig.isEmpty then .error .verifyFailed
      else
        requireSchnorr C sig pubkey ctx
        .ok stack
  | .checksigadd => do
      let (pubkey, stack) ← stack.pop "OP_CHECKSIGADD"
      let (n, stack) ← popNum stack "OP_CHECKSIGADD" 4
      let (sig, stack) ← stack.pop "OP_CHECKSIGADD"
      if sig.isEmpty then stack.push (encodeScriptnum n)
      else
        requireSchnorr C sig pubkey ctx
        stack.push (encodeScriptnum (n + 1))
  | op => .error (.unimplementedOpcode op)

/-- One opcode: the stack after it and the checks it queues. -/
def execOp (C : Crypto) (ctx : LeafContext) (op : Opcode) (stack : Stack) :
    Except InterpError (Stack × List DeferredCheck) :=
  match op with
  | .vault => do
      let (stack, check) ← execOpVault C ctx stack
      .ok (stack, [check])
  | .vaultRecover => do
      let (stack, check) ← execOpVaultRecover C ctx stack
      .ok (stack, [check])
  | op => do
      let stack ← execStackOp C ctx op stack
      .ok (stack, [])

/-! ## Leaves -/

def execItem (C : Crypto) (ctx : LeafContext) (stack : Stack) (item : Item) :
    Except InterpError (Stack × List DeferredCheck) :=
  match item with
  | none => .error .malformedScript
  | some (.pushBytes bytes) => do
      let stack ← stack.push bytes
      .ok (stack, [])
  | some (.op op) => execOp C ctx op stack

/-- One turn of the loop over the instructions of a leaf. -/
def step (C : Crypto) (ctx : LeafContext) (m : Machine) (item : Item) :
    Except InterpError Machine := do
  let (stack, queued) ← execItem C ctx m.stack item
  .ok ⟨stack, m.deferred ++ queued⟩

/-- The end of a leaf: exactly one element, and a true one. -/
def checkFinalStack (stack : Stack) : Except InterpError Unit :=
  match stack.items with
  | [item] => if isTruthy item then .ok () else .error .evalFalse
  | items => .error (.cleanStackRequired items.length)

/-- Run a leaf; what is returned are the checks queued before and by it. -/
def executeLeaf (C : Crypto) (ctx : LeafContext) (initialStack : List Bytes)
    (deferred : List DeferredCheck) : Except InterpError (List DeferredCheck) := do
  let stack ← Stack.new initialStack
  let m ← (instructions ctx.leaf).foldlM (step C ctx) ⟨stack, deferred⟩
  checkFinalStack m.stack
  .ok m.deferred

/-! ## Deferred checks -/

/-- The amounts collected so far, by output index. -/
abbrev OutMap := AList (fun _ : Nat => UInt64)

def addAmount (outMap : OutMap) (idx : Nat) (amount : UInt64) : Except InterpError OutMap :=
  match checkedAdd ((outMap.lookup idx).getD 0) amount with
  | some total => .ok (outMap.insert idx total)
  | none => .error .vaultValueNotPreserved

def collectCheck (outMap : OutMap) : DeferredCheck → Except InterpError OutMap
  | .trigger inputAmount revaultAmount triggerIdx revaultIdx =>
      match checkedSub inputAmount revaultAmount with
      | none => .error .vaultValueNotPreserved
      | some carry => do
          let outMap ← addAmount outMap triggerIdx carry
          if revaultAmount > 0 then addAmount outMap revaultIdx.toUInt64.toNat revaultAmount
          else .ok outMap
  | .recovery inputAmount voutIdx => addAmount outMap voutIdx inputAmount

def checkOutput (tx : Transaction) (entry : Sigma fun _ : Nat => UInt64) : Except InterpError Unit :=
  match tx.output[entry.1]? with
  | none => .error .indexOutOfRange
  | some out => if out.value < entry.2 then .error .vaultValueNotPreserved else .ok ()

def evaluateDeferredChecks (checks : List DeferredCheck) (tx : Transaction) :
    Except InterpError Unit :=
  if checks.isEmpty then .ok ()
  else do
    let outMap ← checks.foldlM collectCheck ∅
    outMap.entries.forM (checkOutput tx)

end Bip360Enforcer.Tapscript
