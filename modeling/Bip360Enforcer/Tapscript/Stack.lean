import Bip360Enforcer.Bitcoin.Crypto

/-!
# The execution stack and the numbers on it
-/

namespace Bip360Enforcer.Tapscript

open LittleEndian (encode)

/-- The argument size of OP_CHECKTEMPLATEVERIFY. -/
def ctvHashLen : Nat := 32

def recoverySpkHashLen : Nat := 32

def maxScriptElementSize : Nat := 520

def maxStackSize : Nat := 1000

inductive InterpError where
  | malformedScript
  | stackUnderflow (opcode : String)
  | elementTooLarge (size : Nat)
  | stackOverflow
  | reservedOpcode (byte : UInt8)
  | ctvBadArgLength (len : Nat)
  | ctvTemplateMismatch
  | unimplementedOpcode (opcode : Opcode)
  | verifyFailed
  | cleanStackRequired (n : Nat)
  | evalFalse
  | missingPrevout
  | badSignatureEncoding
  | unknownPubkeyType (len : Nat)
  | schnorrVerifyFailed
  | sighashError
  | timelockNotSatisfied
  | badScriptNum
  | vaultBadStack
  | vaultTriggerNotV1
  | vaultTriggerMismatch
  | vaultRevaultMismatch
  | vaultRecoverBadHashLen (len : Nat)
  | vaultRecoverMismatch
  | vaultValueNotPreserved
  /-- Not an error of the source: an index out of range, where it would panic. -/
  | indexOutOfRange
  deriving DecidableEq, Repr

/-! ## Stack -/

/-- A stack of byte vectors within the size limits, its top element first. -/
@[ext] structure Stack where
  items : List Bytes
  element_le : ∀ item ∈ items, item.length ≤ maxScriptElementSize
  length_le : items.length ≤ maxStackSize
  deriving DecidableEq

namespace Stack

/-- The witness lists the elements from the bottom of the stack to its top. -/
def new (initial : List Bytes) : Except InterpError Stack :=
  match h : initial.find? (fun item => maxScriptElementSize < item.length) with
  | some item => .error (.elementTooLarge item.length)
  | none =>
      if hlen : initial.length ≤ maxStackSize then
        .ok ⟨initial.reverse, by simpa using h, by simpa using hlen⟩
      else .error .stackOverflow

def push (stack : Stack) (item : Bytes) : Except InterpError Stack :=
  if hitem : item.length ≤ maxScriptElementSize then
    if hlen : stack.items.length < maxStackSize then
      .ok ⟨item :: stack.items, by simpa using ⟨hitem, stack.element_le⟩, by simpa using hlen⟩
    else .error .stackOverflow
  else .error (.elementTooLarge item.length)

def pop (stack : Stack) (opcode : String) : Except InterpError (Bytes × Stack) :=
  match stack with
  | ⟨[], _, _⟩ => .error (.stackUnderflow opcode)
  | ⟨item :: items, hitems, hlen⟩ =>
      .ok (item, ⟨items, fun i hi => hitems i (.tail _ hi), by simp at hlen; omega⟩)

/-- The top element, left in place. -/
def top (stack : Stack) (opcode : String) : Except InterpError Bytes :=
  match stack.items with
  | [] => .error (.stackUnderflow opcode)
  | item :: _ => .ok item

/-- Pop `n` elements; the first popped comes first. -/
def popN (stack : Stack) (opcode : String) : Nat → Except InterpError (List Bytes × Stack)
  | 0 => .ok ([], stack)
  | n + 1 => do
      let (item, stack) ← stack.pop opcode
      let (items, stack) ← stack.popN opcode n
      .ok (item :: items, stack)

end Stack

/-! ## Truth values and numbers -/

/-- False are the empty element, zeros, and zeros followed by the sign byte. -/
def isTruthy : Bytes → Bool
  | [] => false
  | b :: rest => if b != 0 then !(rest.isEmpty && b == 0x80) else isTruthy rest

/-- A byte as an `i64`. -/
def byteToI64 (b : UInt8) : Int64 := b.toUInt64.toInt64

/-- The bytes of a number or-ed together, each at its own place from bit `shift` on. -/
def orBytes (shift : Nat) (result : Int64) : Bytes → Int64
  | [] => result
  | b :: rest => orBytes (shift + 8) (result ||| (byteToI64 b <<< Int64.ofNat shift)) rest

/-- Decode a minimally encoded number of at most `maxLen` bytes. -/
def readScriptnum (bytes : Bytes) (maxLen : Nat) : Except InterpError Int64 :=
  if bytes.length > maxLen then .error .badScriptNum
  else
    match bytes.reverse with
    | [] => .ok 0
    | last :: before =>
        if last &&& 0x7f = 0 ∧ before.head?.all (fun b => b &&& 0x80 = 0) then
          .error .badScriptNum
        else
          let result := orBytes 0 0 bytes
          if last &&& 0x80 ≠ 0 then
            let signBit : Int64 := 0x80 <<< Int64.ofNat (8 * (bytes.length - 1))
            .ok (-(result &&& ~~~signBit))
          else .ok result

/-- The bytes of `abs`, least significant first, until nothing is left of it. -/
def absBytes : Nat → Nat → Bytes
  | 0, _ => []
  | fuel + 1, abs => if abs > 0 then UInt8.ofNat (abs &&& 0xff) :: absBytes fuel (abs >>> 8) else []

/-- Add the sign to the bytes of the absolute value. -/
def addSign (neg : Bool) (out : Bytes) : Bytes :=
  match out.reverse with
  | [] => []
  | top :: below =>
      if top &&& 0x80 ≠ 0 then out ++ [if neg then 0x80 else 0x00]
      else if neg then ((top ||| 0x80) :: below).reverse
      else out

/-- The minimal encoding of `n`. -/
def encodeScriptnum (n : Int64) : Bytes :=
  if n = 0 then [] else addSign (n < 0) (absBytes 8 n.toInt.natAbs)

/-- The shortest push of `data`: a number opcode where there is one, else its length and bytes. -/
def pushMinimal (data : Bytes) : Bytes :=
  match data with
  | [] => [0x00]
  | [b] =>
      if 1 ≤ b ∧ b ≤ 16 then [0x50 + b]
      else if b = 0x81 then [0x4f]
      else [0x01, b]
  | _ =>
      let len := data.length
      let opening : Bytes :=
        if len < 0x4c then [UInt8.ofNat len]
        else if len ≤ 0xff then [0x4c, UInt8.ofNat len]
        else 0x4d :: encode 2 len
      opening ++ data

end Bip360Enforcer.Tapscript
