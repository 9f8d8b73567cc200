import Bip360Enforcer.Validator.Lemmas.ParseBlockFiles

/-!
# What the node writes to a block file is read back
-/

namespace Bip360Enforcer.Validator

open LittleEndian (encode decode decode_encode length_encode)

/-! ## Files as the node writes them -/

def serializedSize (codec : TxCodec) (block : Block) : Nat := 80 + (codec.encode block.txdata).length

/-- A block in a file: the magic, the size, the header and the transactions. -/
def record (network : Network) (codec : TxCodec) (block : Block) : Bytes :=
  magicForNetwork network ++
    (encode 4 (serializedSize codec block) ++ (block.header.serialize ++ codec.encode block.txdata))

def written (network : Network) (codec : TxCodec) (blocks : List Block) : Bytes :=
  blocks.flatMap (record network codec)

/-- The blocks under the key, then zeros that are not masked. -/
def blockFile (key : Option XorKey) (network : Network) (codec : TxCodec) (blocks : List Block)
    (padding : Nat) : Bytes :=
  applyKey key 0 (written network codec blocks) ++ List.replicate padding 0

/-- A block that the node can write. -/
structure Writable (codec : TxCodec) (block : Block) : Prop where
  prevBlockhash : block.header.prevBlockhash.length = 32
  merkleRoot : block.header.merkleRoot.length = 32
  size : serializedSize codec block ≤ maxBlockSerializedSize
  decodes : codec.decode (codec.encode block.txdata) = some block.txdata

/-- What is read of the blocks that start at `offset`. -/
def parsedFrom (network : Network) (codec : TxCodec) : Nat → List Block → List ParsedBlock
  | _, [] => []
  | offset, block :: rest =>
      ⟨block.header, codec.encode block.txdata, offset⟩ ::
        parsedFrom network codec (offset + (record network codec block).length) rest

section

variable {network : Network} {codec : TxCodec}

@[simp] theorem written_cons (block : Block) (blocks : List Block) :
    written network codec (block :: blocks) = record network codec block ++ written network codec blocks :=
  rfl

theorem written_take_append_drop (i : Nat) (blocks : List Block) :
    written network codec (blocks.take i) ++ written network codec (blocks.drop i) =
      written network codec blocks := by
  rw [written, written, ← List.flatMap_append, List.take_append_drop, written]

@[simp] theorem length_magicForNetwork (network : Network) : (magicForNetwork network).length = 4 := by
  cases network <;> rfl

theorem length_le_length_written (network : Network) (codec : TxCodec) (blocks : List Block) :
    blocks.length ≤ (written network codec blocks).length := by
  induction blocks with
  | nil => exact Nat.zero_le _
  | cons block blocks ih => simp [record]; omega

theorem length_parsedFrom (network : Network) (codec : TxCodec) (offset : Nat) (blocks : List Block) :
    (parsedFrom network codec offset blocks).length = blocks.length := by
  induction blocks generalizing offset with
  | nil => rfl
  | cons block blocks ih => simp [parsedFrom, ih]

theorem drop_parsedFrom (network : Network) (codec : TxCodec) (i offset : Nat) (blocks : List Block) :
    (parsedFrom network codec offset blocks).drop i =
      parsedFrom network codec (offset + (written network codec (blocks.take i)).length)
        (blocks.drop i) := by
  induction i generalizing offset blocks with
  | zero => simp [written]
  | succ i ih =>
      cases blocks with
      | nil => simp [parsedFrom]
      | cons block blocks => simp [parsedFrom, ih, Nat.add_assoc]

/-! ## The blocks one after another -/

variable {parser : BlockFileParser} {offset : Nat}

open XorReader (Holds)

theorem blockBody_eq {block : Block} {rest tail : Bytes} {start : Nat} (hblock : Writable codec block)
    (h : parser.reader.Holds offset
      (encode 4 (serializedSize codec block) ++
        (block.header.serialize ++ (codec.encode block.txdata ++ rest))) tail) :
    parser.blockBody start offset =
      (.ok (some ⟨block.header, codec.encode block.txdata, start⟩),
        offset + 4 + 80 + (codec.encode block.txdata).length) := by
  have hmax := hblock.size
  have hheader := Header.length_serialize hblock.prevBlockhash hblock.merkleRoot
  have hsize : decode (encode 4 (serializedSize codec block)) = serializedSize codec block :=
    decode_encode (Nat.lt_of_le_of_lt hmax (by decide))
  have hreadSize := XorReader.readExact_eq h
  have hreadHeader := XorReader.readExact_eq h.later
  have hreadTxs := XorReader.readExact_eq h.later.later
  rw [length_encode] at hreadSize hreadHeader hreadTxs
  rw [hheader] at hreadHeader hreadTxs
  have hlength : serializedSize codec block - 80 = (codec.encode block.txdata).length := by
    simp [serializedSize]
  have hlarge : ¬ maxBlockSerializedSize < serializedSize codec block := Nat.not_lt.mpr hmax
  have hsmall : ¬ serializedSize codec block < 80 := by simp [serializedSize]
  simp only [BlockFileParser.blockBody, Program.bind_apply, Program.mapError, hreadSize, Except.mapError,
    hsize, if_neg hlarge, hreadHeader, if_neg hsmall, hlength, hreadTxs,
    Header.deserialize_serialize hblock.prevBlockhash hblock.merkleRoot, Program.pure_apply]

/-- At a block, the parser reads it and stands behind it. -/
theorem nextBlock_eq {block : Block} {rest tail : Bytes} (hblock : Writable codec block)
    (hraw : (applyKey parser.reader.xorKey offset (magicForNetwork parser.network)).all (· == 0) = false)
    (h : parser.reader.Holds offset (record parser.network codec block ++ rest) tail) :
    parser.nextBlock offset =
      (.ok (some ⟨block.header, codec.encode block.txdata, offset⟩),
        offset + (record parser.network codec block).length) := by
  simp only [record, List.append_assoc] at h
  have hmagic := XorReader.readExact_eq h
  have hbody := h.later
  rw [length_magicForNetwork] at hmagic hbody
  have hlength : (record parser.network codec block).length =
      4 + (4 + (80 + (codec.encode block.txdata).length)) := by
    simp [record, Header.length_serialize hblock.prevBlockhash hblock.merkleRoot]
  have hend : parser.isEndOfFile (magicForNetwork parser.network) (offset + 4) = false := by
    rwa [BlockFileParser.isEndOfFile, Nat.add_sub_cancel]
  simp only [BlockFileParser.nextBlock, Program.bind_apply, Program.get, Program.attempt, hmagic, hend,
    Bool.false_eq_true, if_false, ne_eq, not_true_eq_false, blockBody_eq hblock hbody, hlength,
    Nat.add_assoc]

/-- In the zeros behind the blocks, there is no block. -/
theorem nextBlock_padding {padding : Nat} (h : parser.reader.Holds offset [] (List.replicate padding 0)) :
    (parser.nextBlock offset).1 = .ok none := by
  rw [Holds, applyKey_nil, List.nil_append] at h
  rcases Nat.lt_or_ge padding 4 with hshort | hlong
  · have hlength : (parser.reader.file.drop offset).length < 4 := by simpa [h] using hshort
    have hread := XorReader.readExact_short hlength
    simp only [BlockFileParser.nextBlock, Program.bind_apply, Program.get, Program.attempt, hread,
      Program.pure_apply]
  · have hholds : parser.reader.Holds offset
        (applyKey parser.reader.xorKey offset (List.replicate 4 0) ++ [])
        (List.replicate (padding - 4) 0) := by
      rw [Holds, List.append_nil, applyKey_applyKey, h, List.replicate_append_replicate,
        Nat.add_sub_cancel' hlong]
    have hread := XorReader.readExact_eq hholds
    rw [length_applyKey, List.length_replicate] at hread
    have hend : parser.isEndOfFile (applyKey parser.reader.xorKey offset (List.replicate 4 0))
        (offset + 4) = true := by
      rw [BlockFileParser.isEndOfFile, Nat.add_sub_cancel, applyKey_applyKey]
      rfl
    simp only [BlockFileParser.nextBlock, Program.bind_apply, Program.get, Program.attempt, hread, hend,
      if_true, Program.pure_apply]

/-- Where the file holds these blocks and then zeros, the loop collects the blocks. -/
theorem collectBlocks_eq {fuel padding : Nat} {blocks : List Block} (offset : Nat)
    (found : List ParsedBlock) (hfuel : blocks.length < fuel) (hblocks : ∀ block ∈ blocks, Writable codec block)
    (hraw : ∀ i < blocks.length, (applyKey parser.reader.xorKey
      (offset + (written parser.network codec (blocks.take i)).length)
      (magicForNetwork parser.network)).all (· == 0) = false)
    (h : parser.reader.Holds offset (written parser.network codec blocks) (List.replicate padding 0)) :
    (parser.collectBlocks fuel found offset).1 =
      .ok (found ++ parsedFrom parser.network codec offset blocks) := by
  induction blocks generalizing fuel found offset with
  | nil =>
      obtain ⟨fuel, rfl⟩ := Nat.exists_eq_add_one_of_ne_zero (Nat.ne_of_gt hfuel)
      have hnext := Program.eq_of_fst (nextBlock_padding h)
      rw [BlockFileParser.collectBlocks, Program.bind_apply, Program.mapError, hnext]
      simp [Except.mapError, parsedFrom]
  | cons block blocks ih =>
      obtain ⟨fuel, rfl⟩ := Nat.exists_eq_add_one_of_ne_zero (Nat.ne_of_gt (Nat.zero_lt_of_lt hfuel))
      have hnext := nextBlock_eq (hblocks block (List.mem_cons_self ..))
        (by simpa [written] using hraw 0 (by simp)) h
      have hrest := ih (offset + (record parser.network codec block).length)
        (found ++ [⟨block.header, codec.encode block.txdata, offset⟩]) (by simpa using hfuel)
        (fun other hother => hblocks other (List.mem_cons_of_mem _ hother))
        (fun i hi => by simpa [Nat.add_assoc] using hraw (i + 1) (by simpa using hi)) h.later
      rw [BlockFileParser.collectBlocks, Program.bind_apply, Program.mapError, hnext]
      simpa [Except.mapError, parsedFrom] using hrest

/-- The file from the `i`-th block on. -/
theorem holds_drop {blocks : List Block} {padding i : Nat}
    (hfile : parser.reader.file =
      blockFile parser.reader.xorKey parser.network codec blocks padding) :
    parser.reader.Holds (written parser.network codec (blocks.take i)).length
      (written parser.network codec (blocks.drop i)) (List.replicate padding 0) := by
  have hstart : parser.reader.Holds 0 (written parser.network codec (blocks.take i) ++
      written parser.network codec (blocks.drop i)) (List.replicate padding 0) := by
    rw [Holds, List.drop_zero, hfile, blockFile, written_take_append_drop]
  simpa using hstart.later

/-- From the offset of the `i`-th block on, all the blocks but the first `i` are found. -/
theorem allBlocks_from {blocks : List Block} {padding i : Nat}
    (hfile : parser.reader.file =
      blockFile parser.reader.xorKey parser.network codec blocks padding)
    (hblocks : ∀ block ∈ blocks, Writable codec block)
    (hraw : ∀ i < blocks.length, (applyKey parser.reader.xorKey
      (written parser.network codec (blocks.take i)).length
      (magicForNetwork parser.network)).all (· == 0) = false) :
    (parser.allBlocks (written parser.network codec (blocks.take i)).length).1 =
      .ok ((parsedFrom parser.network codec 0 blocks).drop i) := by
  have hlength : blocks.length ≤ parser.reader.file.length := by
    have hle := length_le_length_written parser.network codec blocks
    rw [hfile, blockFile, List.length_append, length_applyKey]
    omega
  have hfuel : (blocks.drop i).length < parser.reader.file.length + 1 := by
    rw [List.length_drop]
    omega
  have hall := collectBlocks_eq _ [] hfuel
    (fun block hblock => hblocks block (List.mem_of_mem_drop hblock))
    (fun j hj => by
      have htake : written parser.network codec (blocks.take i) ++
          written parser.network codec ((blocks.drop i).take j) =
            written parser.network codec (blocks.take (i + j)) := by
        rw [List.take_add, written, written, written, List.flatMap_append]
      rw [← List.length_append, htake]
      exact hraw (i + j) (by rw [List.length_drop] at hj; omega))
    (holds_drop (i := i) hfile)
  simpa [BlockFileParser.allBlocks, drop_parsedFrom] using hall

theorem getElem_parsedFrom {blocks : List Block} {i : Nat} (hi : i < blocks.length)
    (hparsed : i < (parsedFrom network codec 0 blocks).length) :
    (parsedFrom network codec 0 blocks)[i] = ⟨blocks[i].header, codec.encode blocks[i].txdata,
      (written network codec (blocks.take i)).length⟩ := by
  have hdrop := drop_parsedFrom network codec i 0 blocks
  rw [List.drop_eq_getElem_cons hi, List.drop_eq_getElem_cons hparsed, parsedFrom, Nat.zero_add] at hdrop
  exact (List.cons.inj hdrop).1

end

/-! ## The file as a whole -/

section

variable {parser : BlockFileParser} {codec : TxCodec} {blocks : List Block} {padding : Nat}

/-- The parser finds the blocks of the file with their offsets, and goes on from each of these
offsets as it did before. -/
theorem allBlocks_written
    (hfile : parser.reader.file = blockFile parser.reader.xorKey parser.network codec blocks padding)
    (hblocks : ∀ block ∈ blocks, Writable codec block)
    (hraw : ∀ i < blocks.length, (applyKey parser.reader.xorKey
      (written parser.network codec (blocks.take i)).length
      (magicForNetwork parser.network)).all (· == 0) = false) :
    ∃ parsed, (parser.allBlocks 0).1 = .ok parsed ∧
      parsed.map (fun block => (block.header, block.parseTxData codec)) =
        blocks.map (fun block => (block.header, .ok block.txdata)) ∧
      parsed.map ParsedBlock.offset = (List.range blocks.length).map (fun i =>
        (written parser.network codec (blocks.take i)).length) ∧
      ∀ i (hi : i < parsed.length) start,
        ((do BlockFileParser.setOffset parsed[i].offset; parser.nextBlock) start).1 =
          .ok (some parsed[i]) ∧
        ((do BlockFileParser.setOffset parsed[i].offset; parser.allBlocks) start).1 =
          .ok (parsed.drop i) := by
  have hlength := length_parsedFrom parser.network codec 0 blocks
  refine ⟨parsedFrom parser.network codec 0 blocks, ?_, ?_, ?_, ?_⟩
  · exact allBlocks_from (i := 0) hfile hblocks hraw
  · apply List.ext_getElem
    · simp [hlength]
    · intro i hi _
      rw [List.length_map, hlength] at hi
      have hdecodes := (hblocks _ (List.getElem_mem hi)).decodes
      simp [getElem_parsedFrom hi, ParsedBlock.parseTxData, hdecodes]
  · apply List.ext_getElem
    · simp [hlength]
    · intro i hi _
      rw [List.length_map, hlength] at hi
      simp [getElem_parsedFrom hi]
  · intro i hi start
    have hi' : i < blocks.length := hlength ▸ hi
    rw [getElem_parsedFrom hi']
    constructor
    · have hholds := holds_drop (i := i) hfile
      rw [List.drop_eq_getElem_cons hi', written_cons] at hholds
      exact congrArg Prod.fst (nextBlock_eq (hblocks _ (List.getElem_mem hi')) (hraw i hi') hholds)
    · exact allBlocks_from hfile hblocks hraw

end

/-! ## A file of two blocks -/

def coinbaseTransaction : Transaction where
  version := 1
  lockTime := 0
  input := [⟨.null, [0x51, 0x00], 0xffffffff, []⟩]
  output := [⟨5_000_000_000, [0x51]⟩]

/-- A transaction without witnesses as bytes. -/
def serializeTransaction (transaction : Transaction) : Bytes :=
  encode 4 transaction.version.toUInt32.toNat ++ compactSize transaction.input.length ++
    transaction.input.flatMap (fun input => input.previousOutput.txid ++
      encode 4 input.previousOutput.vout.toNat ++ serializeScript input.scriptSig ++
      encode 4 input.sequence.toNat) ++
    compactSize transaction.output.length ++ transaction.output.flatMap TxOut.serialize ++
    encode 4 transaction.lockTime.toNat

/-- The codec on the coinbase transaction. -/
def coinbaseCodec : TxCodec where
  encode transactions :=
    compactSize transactions.length ++ transactions.flatMap serializeTransaction
  decode bytes :=
    if bytes = compactSize 1 ++ serializeTransaction coinbaseTransaction then some [coinbaseTransaction]
    else none

def coinbaseBlock (nonce : UInt32) : Block where
  header := ⟨1, .allZeros, List.replicate 32 7, 1296688602, 0x207fffff, nonce⟩
  txdata := [coinbaseTransaction]

def maskingKey : XorKey where
  bytes := [0xf1, 0x64, 0xb4, 0xf3, 0xa7, 0x9d, 0x73, 0x04]
  nonempty := by decide

def twoBlocksParser : BlockFileParser where
  reader :=
    { file := blockFile (some maskingKey) .regtest coinbaseCodec [coinbaseBlock 2, coinbaseBlock 3] 9
      xorKey := some maskingKey
      buffered := fun offset => 8192 - offset % 8192
      buffered_pos := fun offset => Nat.sub_pos_of_lt (Nat.mod_lt _ (by decide)) }
  network := .regtest

theorem coinbaseBlock_writable (nonce : UInt32) : Writable coinbaseCodec (coinbaseBlock nonce) where
  prevBlockhash := rfl
  merkleRoot := rfl
  size := by
    change serializedSize coinbaseCodec (coinbaseBlock 0) ≤ maxBlockSerializedSize
    decide
  decodes := by
    change coinbaseCodec.decode (coinbaseCodec.encode [coinbaseTransaction]) = some [coinbaseTransaction]
    decide

theorem twoBlocksParser_allBlocks :
    ∃ parsed, (twoBlocksParser.allBlocks 0).1 = .ok parsed ∧
      parsed.map (fun block => (block.header, block.parseTxData coinbaseCodec)) =
        [((coinbaseBlock 2).header, .ok [coinbaseTransaction]),
          ((coinbaseBlock 3).header, .ok [coinbaseTransaction])] ∧
      parsed.map ParsedBlock.offset = [0, 152] := by
  obtain ⟨parsed, hall, hblocks, hoffsets, -⟩ :=
    @allBlocks_written twoBlocksParser coinbaseCodec [coinbaseBlock 2, coinbaseBlock 3] 9 rfl
      (by
        intro block hblock
        simp only [List.mem_cons, List.not_mem_nil, or_false] at hblock
        rcases hblock with rfl | rfl
        · exact coinbaseBlock_writable 2
        · exact coinbaseBlock_writable 3)
      (by decide +kernel)
  refine ⟨parsed, hall, hblocks, hoffsets.trans ?_⟩
  decide +kernel

end Bip360Enforcer.Validator
