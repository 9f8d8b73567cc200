import Bip360Enforcer.Tapscript.Bip342

/-!
# Agreement of the interpreter with the reference semantics
-/

namespace Bip360Enforcer.Tapscript

/-! ## The reference for a leaf -/

/-- The message that the interpreter checks a signature of type `sighashType` against. -/
def sighashOracle (C : Crypto) (ctx : LeafContext) (sighashType : TapSighashType) : Option Bytes :=
  match sighashPrevouts ctx sighashType with
  | .error _ => none
  | .ok prevouts =>
      (C.taprootSignatureHash ctx.tx ctx.inputIndex prevouts ctx.annex
        (C.tapLeafHash tapscriptLeafVersion ctx.leaf) sighashType).toOption

/-- The choices that BIP342 leaves open to relay policy and to the opcodes not implemented. -/
structure Policy where
  minimalData : Bool
  other : Opcode → List Bytes × List Bytes × List Bool → Option (List Bytes × List Bytes × List Bool)

def rulesOf (C : Crypto) (ctx : LeafContext) (policy : Policy) : Bip342.Rules where
  tx := ctx.tx
  inputIndex := ctx.inputIndex
  spent := ctx.inputTxout
  control := ctx.control
  minimalData := policy.minimalData
  sighash := sighashOracle C ctx
  other := policy.other

/-- The reference accepts the leaf, and after every instruction its stack is the interpreter's. -/
structure ReferenceAgrees (C : Crypto) (ctx : LeafContext) (policy : Policy)
    (initialStack : List Bytes) (deferred : List DeferredCheck) : Prop where
  succeeds : Bip342.succeeds C (rulesOf C ctx policy) ctx.leaf initialStack = true
  sameStack : ∀ n, ∃ start m st, Stack.new initialStack = .ok start ∧
    ((instructions ctx.leaf).take n).foldlM (step C ctx) ⟨start, deferred⟩ = .ok m ∧
    ((instructions ctx.leaf).take n).foldlM (Bip342.step C (rulesOf C ctx policy))
      (Bip342.initialState initialStack) = some st ∧ st.stack = m.stack.items

/-! ## Signature checks on which the two agree -/

/-- Not an empty signature for an empty key, nor a signature that writes out the default type. -/
def cleanSig (pubkey sig : Bytes) : Bool :=
  !(sig.isEmpty && pubkey.isEmpty) && !(sig.length == 65 && sig.getLast? == some 0)

def cleanItem (item : Item) (items : List Bytes) : Bool :=
  match item, items with
  | some (.op .checksig), pubkey :: sig :: _ => cleanSig pubkey sig
  | some (.op .checksigverify), pubkey :: sig :: _ => cleanSig pubkey sig
  | some (.op .checksigadd), pubkey :: _ :: sig :: _ => cleanSig pubkey sig
  | _, _ => true

/-- Every signature check that a run from `stack` reaches is clean. -/
def cleanRun (C : Crypto) (ctx : LeafContext) (stack : Stack) : List Item → Bool
  | [] => true
  | item :: items =>
      cleanItem item stack.items &&
        match execItem C ctx stack item with
        | .ok (stack, _) => cleanRun C ctx stack items
        | .error _ => true

def cleanLeaf (C : Crypto) (ctx : LeafContext) (initialStack : List Bytes) : Bool :=
  match Stack.new initialStack with
  | .ok stack => cleanRun C ctx stack (instructions ctx.leaf)
  | .error _ => true

end Bip360Enforcer.Tapscript
