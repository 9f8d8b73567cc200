import Bip360Enforcer.Tapscript.Enforce

/-!
# Revealed leaves, by the bytes of the witness and of the leaf
-/

namespace Bip360Enforcer.Tapscript

/-! ## Opcodes -/

/-- Reading a script from its start, over whole pushes and other opcodes, one comes to the opcode `byte`. -/
inductive OpcodeAt (byte : UInt8) : Script → Prop where
  | here {rest : Script} (h : 0x4e < byte.toNat) : OpcodeAt byte (byte :: rest)
  | opcode {other : UInt8} {rest : Script} (h : 0x4e < other.toNat) (hrest : OpcodeAt byte rest) :
      OpcodeAt byte (other :: rest)
  | push {form : PushForm} {data : Bytes} {rest : Script} (h : data.length ≤ form.maxLength)
      (hrest : OpcodeAt byte rest) : OpcodeAt byte (form.write data ++ rest)

/-- The bytes of OP_CAT, OP_CTV, OP_VAULT and OP_VAULT_RECOVER. -/
def enforcedBytes : List UInt8 := [0xfe, 0xfd, 0xfc, 0xfb]

def UsesEnforced (leaf : Script) : Prop := ∃ byte ∈ enforcedBytes, OpcodeAt byte leaf

/-! ## Witnesses -/

/-- A control block of the tapscript leaf version: its first byte, a key, and at most 128 nodes. -/
structure TapscriptControl (C : Crypto) (control : Bytes) : Prop where
  version : ∃ first rest, control = first :: rest ∧ first &&& 0xfe = tapscriptLeafVersion
  key : C.xonlyFromSlice ((control.drop 1).take 32) = true
  path : ∃ depth ≤ 128, control.length = 33 + 32 * depth

/-- A script-path spend: the stack, the leaf, the control block, and possibly an annex. -/
inductive RevealsLeaf (C : Crypto) (leaf : Script) (stack : List Bytes) : List Bytes → Prop where
  | plain {control : Bytes} (h : TapscriptControl C control) :
      RevealsLeaf C leaf stack (stack ++ [leaf, control])
  | annexed {control annex : Bytes} (h : TapscriptControl C control)
      (hannex : annex.head? = some annexPrefix) :
      RevealsLeaf C leaf stack (stack ++ [leaf, control, annex])

/-! ## Runs -/

/-- The leaf of `ctx`, run on `initialStack`, ends with one element, and a true one. -/
def EndsTrue (C : Crypto) (ctx : LeafContext) (initialStack : List Bytes) : Prop :=
  ∃ start last item, Stack.new initialStack = .ok start ∧
    (instructions ctx.leaf).foldlM (fun stack item => (execItem C ctx stack item).map Prod.fst) start =
      .ok last ∧ last.items = [item] ∧ isTruthy item = true

end Bip360Enforcer.Tapscript
