import Bip360Enforcer.Bitcoin.Types

/-!
# Scripts as sequences of instructions
-/

namespace Bip360Enforcer

/-! ## Opcodes -/

/-- The opcodes the validator tells apart; every other byte is `other`. -/
inductive Opcode where
  | pushnum (n : Fin 16)
  | verify
  | drop
  | dup
  | swap
  | substr
  | equal
  | equalverify
  | booland
  | ripemd160
  | sha256
  | hash160
  | hash256
  | checksig
  | checksigverify
  | checkmultisig
  | checkmultisigverify
  | cltv
  | csv
  | checksigadd
  | vaultRecover
  | vault
  | ctv
  | cat
  | other (byte : UInt8)
  deriving DecidableEq, Repr

namespace Opcode

def fromU8 (byte : UInt8) : Opcode :=
  match byte.toNat with
  | 0x51 => pushnum 0
  | 0x52 => pushnum 1
  | 0x53 => pushnum 2
  | 0x54 => pushnum 3
  | 0x55 => pushnum 4
  | 0x56 => pushnum 5
  | 0x57 => pushnum 6
  | 0x58 => pushnum 7
  | 0x59 => pushnum 8
  | 0x5a => pushnum 9
  | 0x5b => pushnum 10
  | 0x5c => pushnum 11
  | 0x5d => pushnum 12
  | 0x5e => pushnum 13
  | 0x5f => pushnum 14
  | 0x60 => pushnum 15
  | 0x69 => verify
  | 0x75 => drop
  | 0x76 => dup
  | 0x7c => swap
  | 0x7f => substr
  | 0x87 => equal
  | 0x88 => equalverify
  | 0x9a => booland
  | 0xa6 => ripemd160
  | 0xa8 => sha256
  | 0xa9 => hash160
  | 0xaa => hash256
  | 0xac => checksig
  | 0xad => checksigverify
  | 0xae => checkmultisig
  | 0xaf => checkmultisigverify
  | 0xb1 => cltv
  | 0xb2 => csv
  | 0xba => checksigadd
  | 0xfb => vaultRecover
  | 0xfc => vault
  | 0xfd => ctv
  | 0xfe => cat
  | _ => other byte

def toU8 : Opcode → UInt8
  | pushnum n => UInt8.ofNat (0x51 + n)
  | verify => 0x69
  | drop => 0x75
  | dup => 0x76
  | swap => 0x7c
  | substr => 0x7f
  | equal => 0x87
  | equalverify => 0x88
  | booland => 0x9a
  | ripemd160 => 0xa6
  | sha256 => 0xa8
  | hash160 => 0xa9
  | hash256 => 0xaa
  | checksig => 0xac
  | checksigverify => 0xad
  | checkmultisig => 0xae
  | checkmultisigverify => 0xaf
  | cltv => 0xb1
  | csv => 0xb2
  | checksigadd => 0xba
  | vaultRecover => 0xfb
  | vault => 0xfc
  | ctv => 0xfd
  | cat => 0xfe
  | other byte => byte

end Opcode

/-! ## The instruction iterator -/

inductive Instruction where
  | pushBytes (bytes : Bytes)
  | op (opcode : Opcode)
  deriving DecidableEq, Repr

/-- What the iterator yields: an instruction, or the error of a script that ends early. -/
abbrev Item := Option Instruction

/-- Take `n` bytes as a push; if there are fewer, yield an error and drop what is left. -/
def takeSliceOrKill (n : Nat) (data : Bytes) : Item × Bytes :=
  if n ≤ data.length then (some (.pushBytes (data.take n)), data.drop n) else (none, [])

/-- A push whose length is written in the next `size` bytes. -/
def nextPushDataLen (size : Nat) (data : Bytes) : Item × Bytes :=
  if size ≤ data.length then
    takeSliceOrKill (LittleEndian.decode (data.take size)) (data.drop size)
  else (none, [])

def nextInstruction : Bytes → Option (Item × Bytes)
  | [] => none
  | byte :: data =>
      if byte.toNat ≤ 0x4b then some (takeSliceOrKill byte.toNat data)
      else if byte.toNat = 0x4c then some (nextPushDataLen 1 data)
      else if byte.toNat = 0x4d then some (nextPushDataLen 2 data)
      else if byte.toNat = 0x4e then some (nextPushDataLen 4 data)
      else some (some (.op (.fromU8 byte)), data)

theorem takeSliceOrKill_length_le (n : Nat) (data : Bytes) :
    (takeSliceOrKill n data).2.length ≤ data.length := by
  unfold takeSliceOrKill
  split <;> simp

theorem nextPushDataLen_length_le (size : Nat) (data : Bytes) :
    (nextPushDataLen size data).2.length ≤ data.length := by
  unfold nextPushDataLen
  split
  · exact (takeSliceOrKill_length_le _ _).trans (by simp)
  · simp

theorem nextInstruction_length_lt {script : Bytes} {item rest}
    (h : nextInstruction script = some (item, rest)) : rest.length < script.length := by
  cases script with
  | nil => simp [nextInstruction] at h
  | cons byte data =>
      suffices hle : rest.length ≤ data.length by simp only [List.length_cons]; omega
      have hslice := takeSliceOrKill_length_le byte.toNat data
      have hlen := fun size => nextPushDataLen_length_le size data
      simp only [nextInstruction] at h
      split_ifs at h <;> simp only [Option.some.injEq] at h <;> grind

/-- The items of a script read with at most `fuel` steps. -/
def instructionsFuel : Nat → Bytes → List Item
  | 0, _ => []
  | fuel + 1, script =>
      match nextInstruction script with
      | none => []
      | some (item, rest) => item :: instructionsFuel fuel rest

/-- The items of `Script::instructions`; each of them takes at least one byte. -/
def instructions (script : Script) : List Item :=
  instructionsFuel script.length script

theorem instructionsFuel_eq (fuel fuel' : Nat) (script : Bytes) (h : script.length ≤ fuel)
    (h' : script.length ≤ fuel') : instructionsFuel fuel script = instructionsFuel fuel' script := by
  induction fuel generalizing fuel' script with
  | zero =>
      obtain rfl : script = [] := by simpa using h
      cases fuel' <;> rfl
  | succ fuel ih =>
      cases fuel' with
      | zero =>
          obtain rfl : script = [] := by simpa using h'
          rfl
      | succ fuel' =>
          simp only [instructionsFuel]
          split
          · rfl
          · rename_i item rest hnext
            have := nextInstruction_length_lt hnext
            rw [ih fuel' rest (by omega) (by omega)]

theorem instructions_eq (script : Script) :
    instructions script =
      match nextInstruction script with
      | none => []
      | some (item, rest) => item :: instructions rest := by
  unfold instructions
  cases hlen : script.length with
  | zero =>
      obtain rfl : script = [] := by simpa using hlen
      rfl
  | succ n =>
      simp only [instructionsFuel]
      split
      · rfl
      · rename_i item rest hnext
        have := nextInstruction_length_lt hnext
        rw [instructionsFuel_eq n rest.length rest (by omega) (by omega)]

@[simp] theorem instructions_nil : instructions [] = [] := rfl

/-! ## Pushes -/

/-- The ways to write a push: the length in the opcode, or in the bytes after it. -/
inductive PushForm where
  | direct
  | pushdata1
  | pushdata2
  | pushdata4
  deriving DecidableEq, Repr

namespace PushForm

/-- How long what the form pushes may be. -/
def maxLength : PushForm → Nat
  | direct => 0x4b
  | pushdata1 => 256 ^ 1 - 1
  | pushdata2 => 256 ^ 2 - 1
  | pushdata4 => 256 ^ 4 - 1

def write (data : Bytes) : PushForm → Bytes
  | direct => UInt8.ofNat data.length :: data
  | pushdata1 => 0x4c :: (LittleEndian.encode 1 data.length ++ data)
  | pushdata2 => 0x4d :: (LittleEndian.encode 2 data.length ++ data)
  | pushdata4 => 0x4e :: (LittleEndian.encode 4 data.length ++ data)

end PushForm

/-- What an instruction puts on the stack: the bytes of a push, or a number that has an opcode. -/
def Instruction.pushed : Instruction → Option Bytes
  | pushBytes bytes => some bytes
  | op (.pushnum n) => some [UInt8.ofNat (n + 1)]
  | op (.other byte) => if byte = 0x4f then some [0x81] else none
  | op _ => none

/-- `script` is a single push, of `data`. -/
def Pushes (script : Script) (data : Bytes) : Prop :=
  ∃ instruction, instructions script = [some instruction] ∧ instruction.pushed = some data

/-- `script` is a push of `data`, and shorter than every other one. -/
structure MinimalPush (data : Bytes) (script : Script) : Prop where
  pushes : Pushes script data
  shortest : ∀ other, Pushes other data → other ≠ script → script.length < other.length

/-! ## Shapes of output scripts -/

/-- `Script::is_p2tr`: a version 1 witness program of 32 bytes. -/
def isP2tr (script : Script) : Bool :=
  script.length = 34 && script[0]? = some 0x51 && script[1]? = some 0x20

/-- `ScriptBuf::new_p2tr_tweaked`. -/
def newP2trTweaked (outputKey : Bytes) : Script := 0x51 :: 0x20 :: outputKey

end Bip360Enforcer
