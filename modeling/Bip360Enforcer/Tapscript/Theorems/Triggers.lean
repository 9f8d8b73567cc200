import Bip360Enforcer.Library.MerkleTree
import Bip360Enforcer.Tapscript.Lemmas.Pushes
import Bip360Enforcer.Tapscript.Lemmas.Vault

/-!
# The output that OP_VAULT forces, and its script
-/

namespace Bip360Enforcer.Tapscript

open Except (bind_eq_ok_iff)
open MerkleTree (Position)
open SignMagnitude (value)

variable {C : Crypto} {ctx : LeafContext} {stack stack' : Stack} {check : DeferredCheck}
  {items : List Bytes} {tx : Transaction}

/-! ## The tree -/

/-- A taproot script tree: leaves are scripts with their versions. -/
abbrev TapTree := MerkleTree (UInt8 × Script)

namespace TapTree

variable (C) (tree : TapTree)

def leafHash (leaf : UInt8 × Script) : Bytes := C.tapLeafHash leaf.1 leaf.2

def merkleRoot : Bytes := tree.root (leafHash C) C.tapBranchHash

/-- The merkle branch of a control block for the leaf at `pos`. -/
def merkleBranch (pos : Position) : List Bytes := tree.siblings (leafHash C) C.tapBranchHash pos

/-- The P2TR script of the tree with an internal key. -/
def outputScript (internalKey : Bytes) : Script :=
  newP2trTweaked (C.tapTweak internalKey (merkleRoot C tree))

end TapTree

/-- `updated` is `tree` with the leaf at `pos` replaced by `leaf`, and nothing else changed. -/
structure LeafReplaced (C : Crypto) (tree updated : TapTree) (pos : Position) (leaf : UInt8 × Script) :
    Prop where
  leaf : updated.subtree pos = some (.leaf leaf)
  others : ∀ other, ¬ other <+: pos → updated.subtree other = tree.subtree other
  branch : TapTree.merkleBranch C updated pos = TapTree.merkleBranch C tree pos

theorem leafReplaced_replace {tree : TapTree} {pos : Position} {old : UInt8 × Script}
    (new : UInt8 × Script) (h : tree.subtree pos = some (.leaf old)) :
    LeafReplaced C tree (tree.replace pos new) pos new where
  leaf := MerkleTree.subtree_replace_self new h
  others _ hother := MerkleTree.subtree_replace_of_apart new ⟨old, h⟩ hother
  branch := MerkleTree.siblings_replace pos new

/-! ## Forced outputs -/

/-- The trigger output named on `stack` pays to the tree in which the leaf at `pos` is replaced by the
minimal pushes of the items on `stack`, the deepest first, and the body. -/
def ForcesReplacement (C : Crypto) (tx : Transaction) (control : ControlBlock) (stack : Stack)
    (tree : TapTree) (pos : Position) : Prop :=
  ∃ body pushCount items pushes triggerIdx below out updated,
    stack.items = body :: pushCount :: (items ++ triggerIdx :: below) ∧
    value pushCount = items.length ∧ 0 ≤ value triggerIdx ∧
    tx.output[(value triggerIdx).toNat]? = some out ∧
    List.Forall₂ MinimalPush items.reverse pushes ∧
    LeafReplaced C tree updated pos (control.leafVersion, pushes.flatten ++ body) ∧
    out.scriptPubkey = TapTree.outputScript C updated control.internalKey

theorem detectEnforcedLeaf_version {witness : List Bytes} {enforced : EnforcedLeaf}
    (h : detectEnforcedLeaf C witness = some enforced) :
    enforced.control.leafVersion = tapscriptLeafVersion := by
  unfold detectEnforcedLeaf at h
  split_ifs at h
  split at h
  · simp only [bind, Option.bind_eq_some_iff] at h
    obtain ⟨control, -, h⟩ := h
    split_ifs at h with hversion
    cases h
    simpa using hversion
  · cases h

/-- An accepted OP_VAULT has read its arguments off the stack, and the output it names has the script
rebuilt from them. -/
theorem execOpVault_trigger (h : execOpVault C ctx stack = .ok (stack', check)) :
    ∃ body pushCount trigger revault amount pushed rest args out,
      PopsVaultArgs stack.items rest (Int64.ofNat ctx.tx.output.length) args body pushCount trigger
        revault amount pushed ∧
      ctx.tx.output[args.triggerIdx.toInt.toNat]? = some out ∧
      out.scriptPubkey = reconstructTriggerSpk C ctx.control args.leafUpdate := by
  unfold execOpVault at h
  split at h
  · cases h
  · simp only [bind_eq_ok_iff, Prod.exists] at h
    obtain ⟨args, rest, hargs, out, hout, h⟩ := h
    split_ifs at h with hv1 hspk
    obtain ⟨body, pushCount, trigger, revault, amount, pushed, hpop⟩ := popVaultArgs_ok hargs
    exact ⟨body, pushCount, trigger, revault, amount, pushed, rest.items, args, out, hpop,
      outputAt_ok hpop.triggerIdx_nonneg hout, not_not.mp hspk⟩

theorem forall₂_minimalPush {items : List Bytes} (h : ∀ item ∈ items, item.length ≤ maxScriptElementSize) :
    List.Forall₂ MinimalPush items (items.map pushMinimal) := by
  rw [List.forall₂_map_right_iff, List.forall₂_same]
  exact fun item hitem => pushMinimal_minimal (h item hitem)

/-- An accepted OP_VAULT forces the replacement of its own leaf, wherever it is in whatever tree. -/
theorem execOpVault_forces {prevouts : PrevoutMap} {inputIndex : Nat} {input : TxIn}
    {enforced : EnforcedLeaf} {tree : TapTree} {pos : Position}
    (hcomm : MerkleTree.Unordered C.tapBranchHash)
    (henforced : detectEnforcedLeaf C input.witness = some enforced)
    (hleaf : tree.subtree pos = some (.leaf (enforced.control.leafVersion, enforced.leaf)))
    (hbranch : enforced.control.merkleBranch = TapTree.merkleBranch C tree pos)
    (h : execOpVault C (leafContext tx prevouts inputIndex input enforced) stack = .ok (stack', check)) :
    ForcesReplacement C tx enforced.control stack tree pos := by
  obtain ⟨body, pushCount, trigger, revault, amount, pushed, rest, args, out, hpop, hout, hspk⟩ :=
    execOpVault_trigger h
  have hversion := detectEnforcedLeaf_version henforced
  have hidx : args.triggerIdx.toInt = value trigger := hpop.triggerIdx.toInt_eq
  have hsize : ∀ item ∈ pushed.reverse, item.length ≤ maxScriptElementSize := by
    intro item hitem
    apply stack.element_le
    rw [hpop.items_eq]
    simp [List.mem_reverse.mp hitem]
  refine ⟨body, pushCount, pushed, pushed.reverse.map pushMinimal, trigger, _, out, tree.replace pos _,
    hpop.items_eq, hpop.pushCount_eq, hidx ▸ hpop.triggerIdx_nonneg, hidx ▸ hout,
    forall₂_minimalPush hsize, leafReplaced_replace _ hleaf, ?_⟩
  rw [← List.flatMap_def]
  have hfold : (TapTree.merkleBranch C tree pos).foldl C.tapBranchHash
      (TapTree.leafHash C (enforced.control.leafVersion, args.leafUpdate)) =
      TapTree.merkleRoot C (tree.replace pos (enforced.control.leafVersion, args.leafUpdate)) :=
    MerkleTree.foldl_siblings hcomm (enforced.control.leafVersion, args.leafUpdate) hleaf
  rw [hspk, reconstructTriggerSpk, ← hpop.leafUpdate_eq, TapTree.outputScript, ← hfold, ← hbranch,
    hversion]
  rfl

/-! A trigger with two items, from the second of two leaves. -/

def triggerTree : TapTree := .branch (.leaf (0xc0, [0x51])) (.leaf (0xc0, [0xfc]))

/-- The control block of the leaf at `pos`, under the key of zeros. -/
def controlBytes (tree : TapTree) (pos : Position) : Bytes :=
  0xc0 :: (List.replicate 32 0 ++ (TapTree.merkleBranch .sample tree pos).flatten)

def triggerWitness (items : List Bytes) (body : Script) (tree : TapTree) (pos : Position)
    (leaf : Script) : List Bytes :=
  [[], [0x81], []] ++ items ++ [[UInt8.ofNat items.length], body, leaf, controlBytes tree pos]

def triggerInput (items : List Bytes) (body : Script) : TxIn where
  previousOutput := ⟨List.replicate 32 1, 0⟩
  scriptSig := []
  sequence := 0
  witness := triggerWitness items body triggerTree [true] [0xfc]

/-- The output that the trigger has to make. -/
def triggerOutput (items : List Bytes) (body : Script) : TxOut where
  value := 100
  scriptPubkey := TapTree.outputScript .sample
    (triggerTree.replace [true] (0xc0, items.flatMap pushMinimal ++ body)) (List.replicate 32 0)

def triggerTx (items : List Bytes) (body : Script) : Transaction where
  version := 2
  lockTime := 0
  input := [triggerInput items body]
  output := [triggerOutput items body]

def triggerPrevouts : PrevoutMap :=
  (∅ : PrevoutMap).insert ⟨List.replicate 32 1, 0⟩
    ⟨100, TapTree.outputScript .sample triggerTree (List.replicate 32 0)⟩

def triggerLeaf (items : List Bytes) (body : Script) : EnforcedLeaf where
  leaf := [0xfc]
  stack := [[], [0x81], []] ++ items ++ [[UInt8.ofNat items.length], body]
  control := ⟨0xc0, false, List.replicate 32 0, TapTree.merkleBranch .sample triggerTree [true]⟩
  annex := none

def triggerStack : Stack where
  items := [[0x51], [2], [7, 7], [3], [], [0x81], []]
  element_le := by decide
  length_le := by decide

theorem sample_unordered : MerkleTree.Unordered Crypto.sample.tapBranchHash := fun _ _ =>
  congrArg Crypto.front (List.zipWith_comm_of_comm UInt8.xor_comm)

theorem triggerTx_forces :
    ForcesReplacement .sample (triggerTx [[3], [7, 7]] [0x51]) (triggerLeaf [[3], [7, 7]] [0x51]).control
      triggerStack triggerTree [true] ∧
    (triggerOutput [[3], [7, 7]] [0x51]).scriptPubkey = TapTree.outputScript .sample
      (triggerTree.replace [true] (0xc0, [0x53, 0x02, 7, 7, 0x51])) (List.replicate 32 0) := by
  have hrun : execOpVault .sample
      (leafContext (triggerTx [[3], [7, 7]] [0x51]) triggerPrevouts 0 (triggerInput [[3], [7, 7]] [0x51])
        (triggerLeaf [[3], [7, 7]] [0x51])) triggerStack =
      .ok (⟨[[1]], by decide, by decide⟩, .trigger 100 0 0 (-1)) := by decide
  refine ⟨?_, by decide⟩
  exact execOpVault_forces sample_unordered (by decide) (by decide) (by decide) hrun

/-! ## Trigger scripts -/

/-- In front of every script, the pushes of `items` run from `stack` and leave exactly `items` on it. -/
def PushesRun (C : Crypto) (ctx : LeafContext) (stack : Stack) (items : List Bytes) : Prop :=
  ∃ after : Stack, after.items = items.reverse ++ stack.items ∧ ∀ (body : Script) deferred,
    (instructions (items.flatMap pushMinimal ++ body)).foldlM (step C ctx) ⟨stack, deferred⟩ =
      (instructions body).foldlM (step C ctx) ⟨after, deferred⟩

/-- The pushes that OP_VAULT writes can be run by the interpreter unless one of them is of 0x81. -/
theorem pushesRun_iff (hsize : ∀ item ∈ items, item.length ≤ maxScriptElementSize)
    (hroom : stack.items.length + items.length ≤ maxStackSize) :
    PushesRun C ctx stack items ↔ [0x81] ∉ items := by
  constructor
  · rintro ⟨after, -, hrun⟩ hmem
    obtain ⟨before, rest, rfl, hbefore⟩ := List.eq_append_cons_of_mem hmem
    have hsize' : ∀ item ∈ before, item.length ≤ maxScriptElementSize := fun item hitem =>
      hsize item (List.mem_append_left _ hitem)
    have hroom' : stack.items.length + before.length ≤ maxStackSize := by
      rw [List.length_append] at hroom
      omega
    -- the script is read up to the first push of 0x81
    have hmid : (stack.pushed before hsize' hroom').items = before.reverse ++ stack.items := rfl
    have hall := hrun [] []
    rw [List.flatMap_append, List.flatMap_cons, List.append_nil, run_pushes hmid hbefore,
      run_negOne] at hall
    cases hall
  · intro hneg
    exact ⟨stack.pushed items hsize hroom, rfl, run_pushes rfl hneg⟩

def emptyStack : Stack := ⟨[], by simp, by simp⟩

/-- Of the second leaf of `triggerTx`. -/
def triggerContext (items : List Bytes) (body : Script) : LeafContext :=
  leafContext (triggerTx items body) triggerPrevouts 0 (triggerInput items body)
    (triggerLeaf items body)

theorem triggerItems_run :
    PushesRun .sample (triggerContext [[3], [7, 7]] [0x51]) triggerStack [[], [16], [0x80], [7, 7]] :=
  (pushesRun_iff (by decide) (by decide)).mpr (by decide)

/-- OP_VAULT accepts a trigger with an item of 0x81, whose leaf then fails. -/
theorem negOneTrigger_stuck :
    enforceTransaction .sample (triggerTx [[0x81]] [0x51]) triggerPrevouts = .ok () ∧
    ¬ PushesRun .sample (triggerContext [[0x81]] [0x51]) emptyStack [[0x81]] := by
  refine ⟨by decide, ?_⟩
  rintro ⟨after, -, hrun⟩
  have hall := hrun [] []
  rw [List.flatMap_singleton, run_negOne] at hall
  cases hall

end Bip360Enforcer.Tapscript
