import Bip360Enforcer.Bitcoin.Types
import Bip360Enforcer.Library.Program

/-!
# The parser of the node's block files
-/

namespace Bip360Enforcer

open LittleEndian (encode decode)

/-! ## Headers as bytes -/

def Header.serialize (header : Header) : Bytes :=
  encode 4 header.version.toUInt32.toNat ++ header.prevBlockhash ++ header.merkleRoot ++
    encode 4 header.time.toNat ++ encode 4 header.bits.toNat ++ encode 4 header.nonce.toNat

/-- The header that 80 bytes stand for. -/
def Header.deserialize (bytes : Bytes) : Header where
  version := ⟨UInt32.ofNat (decode (bytes.take 4))⟩
  prevBlockhash := (bytes.drop 4).take 32
  merkleRoot := (bytes.drop 36).take 32
  time := UInt32.ofNat (decode ((bytes.drop 68).take 4))
  bits := UInt32.ofNat (decode ((bytes.drop 72).take 4))
  nonce := UInt32.ofNat (decode ((bytes.drop 76).take 4))

namespace Validator

/-! ## Networks -/

inductive Network where
  | bitcoin
  | testnet
  | testnet4
  | signet
  | regtest
  deriving DecidableEq, Repr

def mainnetMagic : Bytes := [0xf9, 0xbe, 0xb4, 0xd9]
def testnetMagic : Bytes := [0x0b, 0x11, 0x09, 0x07]
def signetMagic : Bytes := [0x0a, 0x03, 0xcf, 0x40]
def regtestMagic : Bytes := [0xfa, 0xbf, 0xb5, 0xda]

/-- The magic that the parser has for a network. -/
def magicForNetwork : Network → Bytes
  | .bitcoin => mainnetMagic
  | .testnet | .testnet4 => testnetMagic
  | .signet => signetMagic
  | .regtest => regtestMagic

/-- The networks that are told apart from no network at all by their magic. -/
def knownNetworks : List Network := [.bitcoin, .regtest, .testnet, .signet]

/-- The size of a serialised block. -/
def maxBlockSerializedSize : Nat := 4_000_000

/-! ## Reader -/

structure XorKey where
  bytes : Bytes
  nonempty : 0 < bytes.length

/-- The byte of the key for a position in the file. -/
def XorKey.byteAt (key : XorKey) (position : Nat) : UInt8 :=
  key.bytes.get ⟨position % key.bytes.length, Nat.mod_lt _ key.nonempty⟩

/-- XOR the bytes at `offset` with the key, if there is one. -/
def applyKey : Option XorKey → Nat → Bytes → Bytes
  | none, _, bytes => bytes
  | some key, offset, bytes => bytes.mapIdx fun i byte => byte ^^^ key.byteAt (offset + i)

inductive ParseBlockFileError where
  | unexpectedEof
  | io
  | invalidMagic (found expected : Bytes) (offset : Nat)
  | invalidNetwork (found expected : Network)
  | blockSizeTooLarge (size : Nat)
  | blockSizeTooSmall (size : Nat)
  | txDataDecode
  | headerDecode
  | uintDecode
  /-- The loop over the blocks does not come to its end. -/
  | diverged
  deriving DecidableEq, Repr

/-- Programs over the offset of a reader. -/
abbrev ReaderM (ε α : Type) := Program Nat ε α

structure XorReader where
  file : Bytes
  xorKey : Option XorKey
  /-- How many bytes one read at an offset gives at most. -/
  buffered : Nat → Nat
  buffered_pos : ∀ offset, 0 < buffered offset

namespace XorReader

variable (reader : XorReader)

/-- At most `n` bytes; none at the end of the file only. -/
def read (n : Nat) : ReaderM ParseBlockFileError Bytes := fun offset =>
  let bytes := (reader.file.drop offset).take (min n (reader.buffered offset))
  (.ok (applyKey reader.xorKey offset bytes), offset + bytes.length)

/-- Read until there are `n` bytes, in at most `fuel` reads. -/
def readExactIn : Nat → Nat → ReaderM ParseBlockFileError Bytes
  | _, 0 => pure []
  | 0, _ + 1 => Program.fail .unexpectedEof
  | fuel + 1, n + 1 => do
      let bytes ← reader.read (n + 1)
      if bytes.isEmpty then Program.fail .unexpectedEof
      else do
        let rest ← readExactIn fuel (n + 1 - bytes.length)
        pure (bytes ++ rest)

/-- Each read gives a byte, or the file is at its end. -/
def readExact (n : Nat) : ReaderM ParseBlockFileError Bytes := reader.readExactIn n n

end XorReader

/-! ## Blocks -/

/-- A block whose transactions are not decoded yet, with its offset in the file. -/
structure ParsedBlock where
  header : Header
  rawTxData : Bytes
  offset : Nat
  deriving DecidableEq, Repr

/-- Transactions as bytes. -/
structure TxCodec where
  encode : List Transaction → Bytes
  decode : Bytes → Option (List Transaction)

def ParsedBlock.parseTxData (codec : TxCodec) (block : ParsedBlock) :
    Except ParseBlockFileError (List Transaction) :=
  (codec.decode block.rawTxData).elim (.error .txDataDecode) .ok

structure ParseAllBlocksError where
  index : Nat
  source : ParseBlockFileError
  deriving DecidableEq, Repr

structure BlockFileParser where
  reader : XorReader
  network : Network

namespace BlockFileParser

variable (parser : BlockFileParser)

def setOffset {ε : Type} (offset : Nat) : ReaderM ε Unit := Program.modify fun _ => offset

/-- Whether the four bytes before `offset` are zero in the file: Core preallocates such bytes, which
are not masked. -/
def isEndOfFile (magic : Bytes) (offset : Nat) : Bool :=
  (applyKey parser.reader.xorKey (offset - 4) magic).all (· == 0)

/-- What follows the magic bytes of the block at `offset`. -/
def blockBody (offset : Nat) : ReaderM ParseBlockFileError (Option ParsedBlock) := do
  let sizeBytes ← Program.mapError (fun _ => .uintDecode) (parser.reader.readExact 4)
  let size := decode sizeBytes
  if maxBlockSerializedSize < size then Program.fail (.blockSizeTooLarge size)
  else do
    let headerBytes ← Program.mapError (fun _ => .headerDecode) (parser.reader.readExact 80)
    if size < 80 then Program.fail (.blockSizeTooSmall size)
    else do
      let txdata ← Program.mapError (fun _ => .io) (parser.reader.readExact (size - 80))
      pure (some ⟨.deserialize headerBytes, txdata, offset⟩)

/-- The block at the offset, if the file is not at its end. -/
def nextBlock : ReaderM ParseBlockFileError (Option ParsedBlock) := do
  let offset ← Program.get
  match ← Program.attempt (parser.reader.readExact 4) with
  | .error .unexpectedEof => pure none
  | .error _ => Program.fail .io
  | .ok magic => do
      let readOffset ← Program.get
      let expectedMagic := magicForNetwork parser.network
      if parser.isEndOfFile magic readOffset then pure none
      else if magic ≠ expectedMagic then
        match knownNetworks.find? fun network => magicForNetwork network = magic with
        | some network => Program.fail (.invalidNetwork network parser.network)
        | none => Program.fail (.invalidMagic magic expectedMagic offset)
      else parser.blockBody offset

/-- Collect the blocks, at most `fuel` of them. -/
def collectBlocks : Nat → List ParsedBlock → ReaderM ParseAllBlocksError (List ParsedBlock)
  | 0, blocks => Program.fail ⟨blocks.length, .diverged⟩
  | fuel + 1, blocks => do
      match ← Program.mapError (fun source => ⟨blocks.length, source⟩) parser.nextBlock with
      | some block => collectBlocks fuel (blocks ++ [block])
      | none => pure blocks

/-- A block takes up a byte at least. -/
def allBlocks : ReaderM ParseAllBlocksError (List ParsedBlock) :=
  parser.collectBlocks (parser.reader.file.length + 1) []

end BlockFileParser

end Validator

end Bip360Enforcer
