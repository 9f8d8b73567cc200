import Bip360Enforcer.Library.MayPanic
import Bip360Enforcer.Tapscript.Enforce

/-!
# The interpreter, with the operations that may panic

The stack is a bare list here, its top element first.
-/

namespace Bip360Enforcer.Tapscript.Checked

open LittleEndian (encode)
open MayPanic

abbrev Eval (α : Type) := MayPanic InterpError α

/-! ## Machine integers -/

def i64Shl (x : Int64) (n : Nat) : Eval Int64 := ensure (n < 64) .overflow (x <<< Int64.ofNat n)

def i64Neg (x : Int64) : Eval Int64 := ensure (x ≠ Int64.minValue) .overflow (-x)

def i64Add (x y : Int64) : Eval Int64 :=
  ensure (-2 ^ 63 ≤ x.toInt + y.toInt ∧ x.toInt + y.toInt < 2 ^ 63) .overflow (x + y)

def u8Add (a b : UInt8) : Eval UInt8 := ensure (a.toNat + b.toNat < 256) .overflow (a + b)

def u8Sub (a b : UInt8) : Eval UInt8 := ensure (b ≤ a) .overflow (a - b)

def i64ToUsize (n : Int64) : Eval Nat := ensure (0 ≤ n) .lossyCast n.toUInt64.toNat

def i64ToU64 (n : Int64) : Eval UInt64 := ensure (0 ≤ n) .lossyCast n.toUInt64

def usizeToI64 (n : Nat) : Eval Int64 := ensure (n < 2 ^ 63) .lossyCast (Int64.ofNat n)

def usizeToU8 (n : Nat) : Eval UInt8 := ensure (n < 2 ^ 8) .lossyCast (UInt8.ofNat n)

def usizeToU16 (n : Nat) : Eval Nat := ensure (n < 2 ^ 16) .lossyCast n

/-! ## Memory -/

/-- The sizes of a `TxIn`, a `TxOut` and a `Vec`. -/
def txInSize : Nat := 104

def txOutSize : Nat := 32

def vecSize : Nat := 24

/-- No allocation is larger than `isize::MAX` bytes, nor is a script with the output it is in. -/
structure InMemory (tx : Transaction) : Prop where
  inputs_lt : tx.input.length * txInSize < 2 ^ 63
  outputs_lt : tx.output.length * txOutSize < 2 ^ 63
  script_lt : ∀ out ∈ tx.output, out.scriptPubkey.length + txOutSize < 2 ^ 63

/-! ## Stack -/

/-- `Stack::new`. -/
def newStack (initial : List Bytes) : Eval (List Bytes) :=
  match initial.find? (fun item => maxScriptElementSize < item.length) with
  | some item => fail (.elementTooLarge item.length)
  | none => if maxStackSize < initial.length then fail .stackOverflow else .ok initial.reverse

def push (items : List Bytes) (item : Bytes) : Eval (List Bytes) :=
  if maxScriptElementSize < item.length then fail (.elementTooLarge item.length)
  else
    let items := item :: items
    if maxStackSize < items.length then fail .stackOverflow else .ok items

def pop (items : List Bytes) (opcode : String) : Eval (Bytes × List Bytes) :=
  match items with
  | [] => fail (.stackUnderflow opcode)
  | item :: items => .ok (item, items)

def top (items : List Bytes) (opcode : String) : Eval Bytes :=
  match items with
  | [] => fail (.stackUnderflow opcode)
  | item :: _ => .ok item

/-- The loop that pops `n` elements; the first popped comes first. -/
def popN (items : List Bytes) (opcode : String) : Nat → Eval (List Bytes × List Bytes)
  | 0 => .ok ([], items)
  | n + 1 => do
      let (item, items) ← pop items opcode
      let (popped, items) ← popN items opcode n
      .ok (item :: popped, items)

/-! ## Truth values and numbers -/

/-- The loop over the bytes of `v`, the first `i` of which are done. -/
def isTruthyFrom (v : Bytes) : Nat → Bytes → Eval Bool
  | _, [] => .ok false
  | i, b :: rest =>
      if b ≠ 0 then do
        let last ← usizeSub v.length 1
        .ok (!(i == last && b == 0x80))
      else isTruthyFrom v (i + 1) rest

def isTruthy (v : Bytes) : Eval Bool := isTruthyFrom v 0 v

/-- The loop that ors the bytes together, the first `i` of which are done. -/
def orBytes (i : Nat) (result : Int64) : Bytes → Eval Int64
  | [] => .ok result
  | b :: rest => do
      let shift ← usizeMul 8 i
      let shifted ← i64Shl (byteToI64 b) shift
      orBytes (i + 1) (result ||| shifted) rest

/-- Whether the number could do without the byte `last` at its end. -/
def nonMinimal (bytes : Bytes) (last : UInt8) : Eval Bool :=
  if last &&& 0x7f ≠ 0 then .ok false
  else if bytes.length ≤ 1 then .ok true
  else do
    let i ← usizeSub bytes.length 2
    let below ← index bytes i
    .ok (below &&& 0x80 = 0)

def readScriptnum (bytes : Bytes) (maxLen : Nat) : Eval Int64 :=
  if bytes.length > maxLen then fail .badScriptNum
  else if bytes.isEmpty then .ok 0
  else do
    let i ← usizeSub bytes.length 1
    let last ← index bytes i
    let nonMinimal ← nonMinimal bytes last
    if nonMinimal then fail .badScriptNum
    else do
      let result ← orBytes 0 0 bytes
      if last &&& 0x80 ≠ 0 then do
        let i ← usizeSub bytes.length 1
        let shift ← usizeMul 8 i
        let signBit ← i64Shl 0x80 shift
        i64Neg (result &&& ~~~signBit)
      else .ok result

def encodeScriptnum (n : Int64) : Eval Bytes :=
  if n = 0 then .ok []
  else do
    let neg := n < 0
    let out := absBytes 8 n.toInt.natAbs
    let top ← unwrap out.getLast?
    if top &&& 0x80 ≠ 0 then .ok (out ++ [if neg then 0x80 else 0x00])
    else if neg then do
      let last ← usizeSub out.length 1
      let b ← index out last
      .ok (out.set last (b ||| 0x80))
    else .ok out

/-- The data behind its length. -/
def pushData (data : Bytes) : Eval Bytes :=
  let len := data.length
  if len < 0x4c then do
    let b ← usizeToU8 len
    .ok (b :: data)
  else if len ≤ 0xff then do
    let b ← usizeToU8 len
    .ok (0x4c :: b :: data)
  else do
    let n ← usizeToU16 len
    .ok (0x4d :: encode 2 n ++ data)

def pushMinimal (data : Bytes) : Eval Bytes :=
  match data with
  | [] => .ok [0x00]
  | [b] =>
      if 1 ≤ b ∧ b ≤ 16 then do
        let op ← u8Add 0x50 b
        .ok [op]
      else if b = 0x81 then .ok [0x4f]
      else pushData [b]
  | data => pushData data

/-- The pushes of `items`, one after the other. -/
def pushAll : List Bytes → Eval Bytes
  | [] => .ok []
  | item :: items => do
      let pushed ← pushMinimal item
      let rest ← pushAll items
      .ok (pushed ++ rest)

/-- Pop a number of at most `maxLen` bytes. -/
def popNum (items : List Bytes) (opcode : String) (maxLen : Nat) : Eval (Int64 × List Bytes) := do
  let (item, items) ← pop items opcode
  let n ← readScriptnum item maxLen
  .ok (n, items)

/-! ## Hashes and signatures -/

section

variable (C : Crypto)

def vaultRecoverySpkHash (spk : Script) : Eval Bytes := do
  let size ← usizeAdd spk.length 9
  withCapacity size 1
  .ok (Tapscript.vaultRecoverySpkHash C spk)

def defaultCheckTemplateVerifyHash (tx : Transaction) (inputIndex : Nat) : Eval Bytes := do
  let size ← usizeMul tx.input.length 4
  withCapacity size 1
  .ok (Tapscript.defaultCheckTemplateVerifyHash C tx inputIndex)

def orderedPrevouts (tx : Transaction) (prevouts : PrevoutMap) : Eval (List TxOut) := do
  withCapacity tx.input.length txOutSize
  lift (Tapscript.orderedPrevouts tx prevouts)

def sighashPrevouts (ctx : LeafContext) (sighashType : TapSighashType) : Eval Prevouts :=
  if sighashType.anyoneCanPay then lift (Tapscript.sighashPrevouts ctx sighashType)
  else do
    let all ← orderedPrevouts ctx.tx ctx.prevouts
    .ok (.all all)

def verifySchnorr (sigBytes pubkeyBytes : Bytes) (ctx : LeafContext) : Eval Bool :=
  if pubkeyBytes.length ≠ 32 then fail (.unknownPubkeyType pubkeyBytes.length)
  else if !C.xonlyFromSlice pubkeyBytes then fail (.unknownPubkeyType pubkeyBytes.length)
  else
    match TaprootSignature.fromSlice sigBytes with
    | none => fail .badSignatureEncoding
    | some sig =>
        if ctx.annex.any (fun annex => annex.head? != some annexPrefix) then fail .malformedScript
        else do
          let prevouts ← sighashPrevouts ctx sig.sighashType
          match C.taprootSignatureHash ctx.tx ctx.inputIndex prevouts ctx.annex
            (C.tapLeafHash tapscriptLeafVersion ctx.leaf) sig.sighashType with
          | .error _ => fail .sighashError
          | .ok sighash => .ok (C.schnorrVerify sig.signature sighash pubkeyBytes)

def requireSchnorr (sig pubkey : Bytes) (ctx : LeafContext) : Eval Unit := do
  let valid ← verifySchnorr C sig pubkey ctx
  if valid then .ok () else fail .schnorrVerifyFailed

end

/-! ## Timelocks -/

def checkSequence (n : Int64) (tx : Transaction) (inputIndex : Nat) : Eval Unit :=
  if n &&& sequenceLocktimeDisableFlag ≠ 0 then .ok ()
  else if tx.version.toUInt32 < 2 then fail .timelockNotSatisfied
  else do
    let input ← index tx.input inputIndex
    let txSeq := input.sequence.toUInt64.toInt64
    if txSeq &&& sequenceLocktimeDisableFlag ≠ 0 then fail .timelockNotSatisfied
    else
      let mask := sequenceLocktimeTypeFlag ||| sequenceLocktimeMask
      let txMasked := txSeq &&& mask
      let nMasked := n &&& mask
      let sameType :=
        (txMasked < sequenceLocktimeTypeFlag && nMasked < sequenceLocktimeTypeFlag)
          || (sequenceLocktimeTypeFlag ≤ txMasked && sequenceLocktimeTypeFlag ≤ nMasked)
      if !sameType || txMasked < nMasked then fail .timelockNotSatisfied else .ok ()

def checkLocktime (n : Int64) (tx : Transaction) (inputIndex : Nat) : Eval Unit :=
  let txLock := tx.lockTime.toUInt64.toInt64
  let sameType := (txLock < locktimeThreshold && n < locktimeThreshold)
    || (locktimeThreshold ≤ txLock && locktimeThreshold ≤ n)
  if !sameType || n > txLock then fail .timelockNotSatisfied
  else do
    let input ← index tx.input inputIndex
    if input.sequence = 0xffffffff then fail .timelockNotSatisfied else .ok ()

/-! ## Vaults -/

structure VaultArgs where
  leafUpdate : Script
  triggerIdx : Nat
  revaultIdx : Int64
  revaultAmount : UInt64
  deriving DecidableEq, Repr

def popVaultArgs (items : List Bytes) (numOutputs : Int64) : Eval (VaultArgs × List Bytes) := do
  let (body, items) ← pop items "OP_VAULT"
  let (pushCount, items) ← popNum items "OP_VAULT" 4
  if pushCount < 0 then fail .vaultBadStack
  else do
    let pushCount ← i64ToUsize pushCount
    let needed ← usizeAdd 3 pushCount
    if items.length < needed then fail .vaultBadStack
    else do
      withCapacity pushCount vecSize
      let (popped, items) ← popN items "OP_VAULT" pushCount
      let pushes ← pushAll popped.reverse
      let (triggerIdx, items) ← popNum items "OP_VAULT" 4
      if triggerIdx < 0 ∨ numOutputs ≤ triggerIdx then fail .vaultBadStack
      else do
        let triggerIdx ← i64ToUsize triggerIdx
        let (revaultIdx, items) ← popNum items "OP_VAULT" 4
        if numOutputs ≤ revaultIdx ∨ (revaultIdx < 0 ∧ revaultIdx ≠ -1) then fail .vaultBadStack
        else do
          let (revaultAmount, items) ← popNum items "OP_VAULT" 7
          if revaultAmount < 0 ∨ (revaultAmount > 0 ∧ revaultIdx < 0)
              ∨ (revaultAmount = 0 ∧ revaultIdx ≠ -1) then fail .vaultBadStack
          else do
            let revaultAmount ← i64ToU64 revaultAmount
            .ok (⟨pushes ++ body, triggerIdx, revaultIdx, revaultAmount⟩, items)

def checkRevaultOut (tx : Transaction) (inputTxout : TxOut) (revaultIdx : Int64) : Eval UInt64 :=
  if 0 ≤ revaultIdx then do
    let i ← i64ToUsize revaultIdx
    let revaultOut ← index tx.output i
    if revaultOut.scriptPubkey ≠ inputTxout.scriptPubkey then fail .vaultRevaultMismatch
    else .ok revaultOut.value
  else .ok 0

def execOpVault (C : Crypto) (ctx : LeafContext) (items : List Bytes) :
    Eval (List Bytes × DeferredCheck) :=
  match ctx.inputTxout with
  | none => fail .missingPrevout
  | some inputTxout => do
      let numOutputs ← usizeToI64 ctx.tx.output.length
      let (args, items) ← popVaultArgs items numOutputs
      let triggerOut ← index ctx.tx.output args.triggerIdx
      if !isP2tr triggerOut.scriptPubkey then fail .vaultTriggerNotV1
      else if triggerOut.scriptPubkey ≠ reconstructTriggerSpk C ctx.control args.leafUpdate then
        fail .vaultTriggerMismatch
      else do
        let revaultValue ← checkRevaultOut ctx.tx inputTxout args.revaultIdx
        match checkedAdd triggerOut.value revaultValue with
        | none => fail .vaultValueNotPreserved
        | some total =>
            if total < inputTxout.value then fail .vaultValueNotPreserved
            else do
              let check := DeferredCheck.trigger inputTxout.value args.revaultAmount args.triggerIdx
                args.revaultIdx
              let items ← push items [1]
              .ok (items, check)

def execOpVaultRecover (C : Crypto) (ctx : LeafContext) (items : List Bytes) :
    Eval (List Bytes × DeferredCheck) :=
  match ctx.inputTxout with
  | none => fail .missingPrevout
  | some inputTxout => do
      let numOutputs ← usizeToI64 ctx.tx.output.length
      let (hashArg, items) ← pop items "OP_VAULT_RECOVER"
      if hashArg.length ≠ recoverySpkHashLen then fail (.vaultRecoverBadHashLen hashArg.length)
      else do
        let (voutIdx, items) ← popNum items "OP_VAULT_RECOVER" 4
        if voutIdx < 0 ∨ numOutputs ≤ voutIdx then fail .vaultBadStack
        else do
          let voutIdx ← i64ToUsize voutIdx
          let recoveryOut ← index ctx.tx.output voutIdx
          let hash ← vaultRecoverySpkHash C recoveryOut.scriptPubkey
          if hash ≠ hashArg then fail .vaultRecoverMismatch
          else do
            let check := DeferredCheck.recovery inputTxout.value voutIdx
            let items ← push items [1]
            .ok (items, check)

/-! ## Opcodes -/

def hashTop (items : List Bytes) (opcode : String) (hash : Bytes → Bytes) : Eval (List Bytes) := do
  let (top, items) ← pop items opcode
  push items (hash top)

def execStackOp (C : Crypto) (ctx : LeafContext) (op : Opcode) (items : List Bytes) :
    Eval (List Bytes) :=
  match op with
  | .cat => do
      let (x2, items) ← pop items "OP_CAT"
      let (x1, items) ← pop items "OP_CAT"
      if (x1 ++ x2).length > maxScriptElementSize then fail (.elementTooLarge (x1 ++ x2).length)
      else push items (x1 ++ x2)
  | .ctv => do
      let arg ← top items "OP_CHECKTEMPLATEVERIFY"
      if arg.length ≠ ctvHashLen then fail (.ctvBadArgLength arg.length)
      else do
        let hash ← defaultCheckTemplateVerifyHash C ctx.tx ctx.inputIndex
        if arg ≠ hash then fail .ctvTemplateMismatch else .ok items
  | .pushnum n => do
      let below ← u8Sub 0x51 1
      let b ← u8Sub (Opcode.pushnum n).toU8 below
      push items [b]
  | .dup => do
      let (top, items) ← pop items "OP_DUP"
      let items ← push items top
      push items top
  | .drop => do
      let (_, items) ← pop items "OP_DROP"
      .ok items
  | .swap => do
      let (a, items) ← pop items "OP_SWAP"
      let (b, items) ← pop items "OP_SWAP"
      let items ← push items a
      push items b
  | .equal => do
      let (a, items) ← pop items "OP_EQUAL"
      let (b, items) ← pop items "OP_EQUAL"
      push items (if a = b then [1] else [])
  | .equalverify => do
      let (a, items) ← pop items "OP_EQUALVERIFY"
      let (b, items) ← pop items "OP_EQUALVERIFY"
      if a = b then .ok items else fail .verifyFailed
  | .verify => do
      let (top, items) ← pop items "OP_VERIFY"
      let truthy ← isTruthy top
      if truthy then .ok items else fail .verifyFailed
  | .sha256 => hashTop items "OP_SHA256" C.sha256
  | .hash256 => hashTop items "OP_HASH256" C.sha256d
  | .hash160 => hashTop items "OP_HASH160" C.hash160
  | .ripemd160 => hashTop items "OP_RIPEMD160" C.ripemd160
  | .csv => do
      let top ← top items "OP_CHECKSEQUENCEVERIFY"
      let n ← readScriptnum top 5
      if n < 0 then fail .timelockNotSatisfied
      else do
        checkSequence n ctx.tx ctx.inputIndex
        .ok items
  | .cltv => do
      let top ← top items "OP_CHECKLOCKTIMEVERIFY"
      let n ← readScriptnum top 5
      if n < 0 then fail .timelockNotSatisfied
      else do
        checkLocktime n ctx.tx ctx.inputIndex
        .ok items
  | .checksig => do
      let (pubkey, items) ← pop items "OP_CHECKSIG"
      let (sig, items) ← pop items "OP_CHECKSIG"
      if sig.isEmpty then push items []
      else do
        requireSchnorr C sig pubkey ctx
        push items [1]
  | .checksigverify => do
      let (pubkey, items) ← pop items "OP_CHECKSIGVERIFY"
      let (sig, items) ← pop items "OP_CHECKSIGVERIFY"
      if sig.isEmpty then fail .verifyFailed
      else do
        requireSchnorr C sig pubkey ctx
        .ok items
  | .checksigadd => do
      let (pubkey, items) ← pop items "OP_CHECKSIGADD"
      let (n, items) ← popNum items "OP_CHECKSIGADD" 4
      let (sig, items) ← pop items "OP_CHECKSIGADD"
      if sig.isEmpty then do
        let encoded ← encodeScriptnum n
        push items encoded
      else do
        requireSchnorr C sig pubkey ctx
        let next ← i64Add n 1
        let encoded ← encodeScriptnum next
        push items encoded
  | op => fail (.unimplementedOpcode op)

def execOp (C : Crypto) (ctx : LeafContext) (op : Opcode) (items : List Bytes) :
    Eval (List Bytes × List DeferredCheck) :=
  match op with
  | .vault => do
      let (items, check) ← execOpVault C ctx items
      .ok (items, [check])
  | .vaultRecover => do
      let (items, check) ← execOpVaultRecover C ctx items
      .ok (items, [check])
  | op => do
      let items ← execStackOp C ctx op items
      .ok (items, [])

/-! ## Leaves -/

def execItem (C : Crypto) (ctx : LeafContext) (items : List Bytes) (item : Item) :
    Eval (List Bytes × List DeferredCheck) :=
  match item with
  | none => fail .malformedScript
  | some (.pushBytes bytes) => do
      let items ← push items bytes
      .ok (items, [])
  | some (.op op) => execOp C ctx op items

structure Machine where
  items : List Bytes
  deferred : List DeferredCheck

def step (C : Crypto) (ctx : LeafContext) (m : Machine) (item : Item) : Eval Machine := do
  let (items, queued) ← execItem C ctx m.items item
  .ok ⟨items, m.deferred ++ queued⟩

def checkFinalStack (items : List Bytes) : Eval Unit :=
  if items.length = 1 then do
    let item ← index items 0
    let truthy ← isTruthy item
    if truthy then .ok () else fail .evalFalse
  else fail (.cleanStackRequired items.length)

def executeLeaf (C : Crypto) (ctx : LeafContext) (initialStack : List Bytes)
    (deferred : List DeferredCheck) : Eval (List DeferredCheck) := do
  let items ← newStack initialStack
  let m ← (instructions ctx.leaf).foldlM (step C ctx) ⟨items, deferred⟩
  checkFinalStack m.items
  .ok m.deferred

/-- `m` is reached in the execution of a leaf, after some of its instructions. -/
def Reaches (C : Crypto) (ctx : LeafContext) (initialStack : List Bytes)
    (deferred : List DeferredCheck) (m : Machine) : Prop :=
  ∃ items done, newStack initialStack = .ok items ∧ done <+: instructions ctx.leaf ∧
    done.foldlM (step C ctx) ⟨items, deferred⟩ = .ok m

/-! ## Deferred checks -/

def collectCheck (outMap : OutMap) : DeferredCheck → Eval OutMap
  | .trigger inputAmount revaultAmount triggerIdx revaultIdx =>
      match checkedSub inputAmount revaultAmount with
      | none => fail .vaultValueNotPreserved
      | some carry => do
          let outMap ← lift (addAmount outMap triggerIdx carry)
          if revaultAmount > 0 then do
            let i ← i64ToUsize revaultIdx
            lift (addAmount outMap i revaultAmount)
          else .ok outMap
  | .recovery inputAmount voutIdx => lift (addAmount outMap voutIdx inputAmount)

def checkOutput (tx : Transaction) (entry : Sigma fun _ : Nat => UInt64) : Eval Unit := do
  let out ← index tx.output entry.1
  if out.value < entry.2 then fail .vaultValueNotPreserved else .ok ()

def evaluateDeferredChecks (checks : List DeferredCheck) (tx : Transaction) : Eval Unit :=
  if checks.isEmpty then .ok ()
  else do
    let outMap ← checks.foldlM collectCheck ∅
    outMap.entries.forM (checkOutput tx)

/-! ## Transactions -/

def detectEnforcedLeaf (C : Crypto) (witness : List Bytes) : MayPanic TapscriptError (Option EnforcedLeaf) :=
  if witness.length < 2 then .ok none
  else
    let (annex, elems) := splitAnnex witness.reverse
    if elems.length < 2 then .ok none
    else do
      let (controlBlock, elems) ← unwrap (List.next? elems)
      let (leaf, elems) ← unwrap (List.next? elems)
      .ok do
        let control ← ControlBlock.decode C controlBlock
        if control.leafVersion ≠ tapscriptLeafVersion then none
        else if !leafUsesEnforcedOpcode leaf then none
        else some ⟨leaf, elems.reverse, control, annex⟩

def enforceInput (C : Crypto) (tx : Transaction) (prevouts : PrevoutMap)
    (deferred : List DeferredCheck) : TxIn × Nat → MayPanic TapscriptError (List DeferredCheck)
  | (input, inputIndex) => do
      match ← detectEnforcedLeaf C input.witness with
      | none => .ok deferred
      | some enforced =>
          (executeLeaf C (leafContext tx prevouts inputIndex input enforced) enforced.stack
            deferred).mapError (Fault.map (.interp inputIndex))

def enforceTransaction (C : Crypto) (tx : Transaction) (prevouts : PrevoutMap) :
    MayPanic TapscriptError Unit := do
  let deferred ← tx.input.zipIdx.foldlM (enforceInput C tx prevouts) []
  (evaluateDeferredChecks deferred tx).mapError (Fault.map .deferred)

end Bip360Enforcer.Tapscript.Checked
