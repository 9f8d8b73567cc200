import Bip360Enforcer.Library.MayPanic
import Bip360Enforcer.Validator.ParseBlockFiles

/-!
# Entries of the node's block index
-/

namespace Bip360Enforcer.Validator

open LittleEndian (decode)

/-! ## Reader -/

inductive IoError where
  | unexpectedEof
  | invalidData (message : String)
  deriving DecidableEq, Repr

/-- Programs over what is left of a byte slice. -/
abbrev SliceM (α : Type) := Program Bytes IoError α

def readExact (n : Nat) : SliceM Bytes := fun bytes =>
  if bytes.length < n then (.error .unexpectedEof, []) else (.ok (bytes.take n), bytes.drop n)

def u64Max : UInt64 := 0xffffffffffffffff

/-- The loop of `readVarint`, with `n` read so far. -/
def readVarintFrom (n : UInt64) : Bytes → Except IoError UInt64 × Bytes
  | [] => (.error .unexpectedEof, [])
  | chData :: rest =>
      if n > u64Max >>> 7 then (.error (.invalidData "VarInt size too large"), rest)
      else
        let n := n <<< 7 ||| (chData &&& 0x7f).toUInt64
        if chData &&& 0x80 ≠ 0 then
          if n = u64Max then (.error (.invalidData "VarInt size too large"), rest)
          else readVarintFrom (n + 1) rest
        else (.ok n, rest)

/-- Core's format for numbers, most significant digit first. -/
def readVarint : SliceM UInt64 := readVarintFrom 0

def readUint256 : SliceM Bytes := readExact 32

def readUint32 : SliceM UInt32 := do
  let buf ← readExact 4
  pure (UInt32.ofNat (decode buf))

/-! ## Entries -/

structure BlockStatus where
  value : UInt32
  deriving DecidableEq, Repr

namespace BlockStatus

def haveData : UInt32 := 8

def haveUndo : UInt32 := 16

def hasData (status : BlockStatus) : Bool := status.value &&& haveData ≠ 0

def hasUndo (status : BlockStatus) : Bool := status.value &&& haveUndo ≠ 0

end BlockStatus

structure CDiskBlockIndex where
  version : UInt64
  height : UInt64
  status : BlockStatus
  txCount : UInt64
  fileNumber : Option UInt32
  dataPos : Option UInt64
  undoPos : Option UInt64
  blockVersion : UInt32
  prevBlockHash : BlockHash
  merkleRoot : Bytes
  timestamp : UInt32
  difficultyTarget : UInt32
  nonce : UInt32
  deriving DecidableEq, Repr

/-- Read what is there under a condition only. -/
def readWhen {α : Type} (present : Bool) (x : SliceM α) : SliceM (Option α) :=
  if present then some <$> x else pure none

namespace CDiskBlockIndex

def deserialize : SliceM CDiskBlockIndex := do
  let version ← readVarint
  let height ← readVarint
  let statusRaw ← readVarint
  let status : BlockStatus := ⟨statusRaw.toUInt32⟩
  let txCount ← readVarint
  let fileNumber ← readWhen (status.hasData || status.hasUndo) (UInt64.toUInt32 <$> readVarint)
  let dataPos ← readWhen status.hasData readVarint
  let undoPos ← readWhen status.hasUndo readVarint
  let blockVersion ← readUint32
  let prevBlockHash ← readUint256
  let merkleRoot ← readUint256
  let timestamp ← readUint32
  let difficultyTarget ← readUint32
  let nonce ← readUint32
  pure {
    version, height, status, txCount, fileNumber, dataPos, undoPos, blockVersion, prevBlockHash,
    merkleRoot, timestamp, difficultyTarget, nonce }

/-- The header that the last six fields make up. -/
def header (index : CDiskBlockIndex) : Header where
  version := ⟨index.blockVersion⟩
  prevBlockhash := index.prevBlockHash
  merkleRoot := index.merkleRoot
  time := index.timestamp
  bits := index.difficultyTarget
  nonce := index.nonce

end CDiskBlockIndex

/-! ## What the node writes -/

namespace Core

/-- The loop of `WriteVarInt`: the bytes in `tmp` come after those that are still to be written. -/
def writeVarintFrom : Nat → UInt64 → Bytes → Bytes
  | 0, _, tmp => tmp
  | fuel + 1, n, tmp =>
      let tmp := ((n &&& 0x7f).toUInt8 ||| if tmp.isEmpty then 0x00 else 0x80) :: tmp
      if n ≤ 0x7f then tmp else writeVarintFrom fuel (n >>> 7 - 1) tmp

/-- `WriteVarInt`, whose buffer has room for ten bytes. -/
def writeVarint (n : UInt64) : Bytes := writeVarintFrom 10 n []

/-- An entry as the node has it. -/
structure BlockIndex where
  version : UInt64
  height : UInt64
  status : UInt32
  txCount : UInt64
  file : UInt32
  dataPos : UInt64
  undoPos : UInt64
  header : Bytes
  header_length : header.length = 80

namespace BlockIndex

variable (entry : BlockIndex)

def hasFile : Prop := entry.status &&& (8 ||| 16) ≠ 0

def hasData : Prop := entry.status &&& 8 ≠ 0

def hasUndo : Prop := entry.status &&& 16 ≠ 0

instance : Decidable entry.hasFile := inferInstanceAs (Decidable (_ ≠ _))

instance : Decidable entry.hasData := inferInstanceAs (Decidable (_ ≠ _))

instance : Decidable entry.hasUndo := inferInstanceAs (Decidable (_ ≠ _))

def serialize : Bytes :=
  writeVarint entry.version ++ writeVarint entry.height ++ writeVarint entry.status.toUInt64 ++
    writeVarint entry.txCount ++
    (if entry.hasFile then writeVarint entry.file.toUInt64 else []) ++
    (if entry.hasData then writeVarint entry.dataPos else []) ++
    (if entry.hasUndo then writeVarint entry.undoPos else []) ++ entry.header

end BlockIndex

end Core

/-! ## Arithmetic that keeps every bit -/

/-- Shift in a digit. -/
def shiftIn (n : UInt64) (chData : UInt8) : MayPanic IoError UInt64 := do
  let shifted ← MayPanic.ensure (n.toNat * 128 < 2 ^ 64) .overflow (n <<< 7)
  let low := (chData &&& 0x7f).toUInt64
  MayPanic.ensure ((shifted ||| low).toNat = shifted.toNat + low.toNat) .overflow (shifted ||| low)

def increment (n : UInt64) : MayPanic IoError UInt64 :=
  MayPanic.ensure (n.toNat + 1 < 2 ^ 64) .overflow (n + 1)

/-- `readVarintFrom`, with no bit lost on the way. -/
def readVarintExactFrom (n : UInt64) : Bytes → MayPanic IoError UInt64
  | [] => MayPanic.fail .unexpectedEof
  | chData :: rest =>
      if n > u64Max >>> 7 then MayPanic.fail (.invalidData "VarInt size too large")
      else do
        let n ← shiftIn n chData
        if chData &&& 0x80 ≠ 0 then
          if n = u64Max then MayPanic.fail (.invalidData "VarInt size too large")
          else do
            let n ← increment n
            readVarintExactFrom n rest
        else .ok n

def readVarintExact (bytes : Bytes) : MayPanic IoError UInt64 := readVarintExactFrom 0 bytes

end Bip360Enforcer.Validator
