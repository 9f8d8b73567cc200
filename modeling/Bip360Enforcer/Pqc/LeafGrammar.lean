import Bip360Enforcer.Pqc.LeafScript

/-!
# The grammar of P2MR leaf scripts

A leaf is a list of groups, each followed by combinators.
-/

namespace Bip360Enforcer.Pqc

/-! ## Pushes of keys -/

/-- A push of a key of an allowed size. -/
structure KeyPush where
  key : Bytes
  form : PushForm
  size : key.length = slhDsaPublicKeySize ∨ key.length = mlDsa44PublicKeySize
  fits : key.length ≤ form.maxLength

namespace KeyPush

def script (push : KeyPush) : Script := push.form.write push.key

def item (push : KeyPush) : Item := some (.pushBytes push.key)

def site (opcode : Opcode) (push : KeyPush) : SigCheckSite := ⟨push.key, opcode⟩

end KeyPush

/-! ## Groups -/

inductive SingleCheck where
  | checksig
  | checksigverify
  | checksigadd
  deriving DecidableEq, Repr

def SingleCheck.opcode : SingleCheck → Opcode
  | checksig => .checksig
  | checksigverify => .checksigverify
  | checksigadd => .checksigadd

inductive MultiCheck where
  | checkmultisig
  | checkmultisigverify
  deriving DecidableEq, Repr

def MultiCheck.opcode : MultiCheck → Opcode
  | checkmultisig => .checkmultisig
  | checkmultisigverify => .checkmultisigverify

/-- `PUSH <pubkey>` and a single check, or `OP_0 PUSH <pk>… OP_N` and a multisig; `n` is N less one. -/
inductive Group where
  | single (push : KeyPush) (check : SingleCheck)
  | multi (pushes : List KeyPush) (n : Fin 16) (count : pushes.length = n + 1) (check : MultiCheck)

namespace Group

def script : Group → Script
  | single push check => push.script ++ [check.opcode.toU8]
  | multi pushes n _ check =>
      0x00 :: (pushes.flatMap KeyPush.script ++ [(Opcode.pushnum n).toU8, check.opcode.toU8])

def items : Group → List Item
  | single push check => [push.item, some (.op check.opcode)]
  | multi pushes n _ check =>
      some (.pushBytes []) :: (pushes.map KeyPush.item ++
        [some (.op (.pushnum n)), some (.op check.opcode)])

def sites : Group → List SigCheckSite
  | single push check => [push.site check.opcode]
  | multi pushes _ _ check => pushes.map (KeyPush.site check.opcode)

end Group

/-! ## Leaves -/

inductive Combinator where
  | booland
  | verify
  | opTrue
  deriving DecidableEq, Repr

def Combinator.opcode : Combinator → Opcode
  | booland => .booland
  | verify => .verify
  | opTrue => .pushnum ⟨0, by decide⟩

def Combinator.byte (c : Combinator) : UInt8 := c.opcode.toU8

def Combinator.item (c : Combinator) : Item := some (.op c.opcode)

/-- A group and the combinators between it and the next one, or the end of the leaf. -/
structure Section where
  group : Group
  combinators : List Combinator

namespace Section

def script (s : Section) : Script := s.group.script ++ s.combinators.map Combinator.byte

def items (s : Section) : List Item := s.group.items ++ s.combinators.map Combinator.item

end Section

structure Leaf where
  sections : List Section
  nonempty : sections ≠ []

namespace Leaf

def script (leaf : Leaf) : Script := leaf.sections.flatMap Section.script

def items (leaf : Leaf) : List Item := leaf.sections.flatMap Section.items

def sites (leaf : Leaf) : List SigCheckSite := leaf.sections.flatMap fun s => s.group.sites

/-- The combinators after the last group. -/
def trailing (leaf : Leaf) : List Combinator := (leaf.sections.getLast leaf.nonempty).combinators

end Leaf

end Bip360Enforcer.Pqc
