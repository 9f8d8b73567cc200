import Mathlib.Data.List.AList
import Bip360Enforcer.Library.LittleEndian

/-!
# Transactions, blocks and the maps keyed by outpoint
-/

namespace Bip360Enforcer

open LittleEndian (encode)

abbrev Bytes := List UInt8

abbrev Script := Bytes

abbrev Txid := Bytes

abbrev BlockHash := Bytes

structure OutPoint where
  txid : Txid
  vout : UInt32
  deriving DecidableEq, Repr

/-- The outpoint a coinbase input names. -/
def OutPoint.null : OutPoint where
  txid := List.replicate 32 0
  vout := 0xffffffff

structure TxOut where
  value : UInt64
  scriptPubkey : Script
  deriving DecidableEq, Repr

structure TxIn where
  previousOutput : OutPoint
  scriptSig : Script
  sequence : UInt32
  witness : List Bytes
  deriving DecidableEq, Repr

structure Transaction where
  version : Int32
  lockTime : UInt32
  input : List TxIn
  output : List TxOut
  deriving DecidableEq, Repr

structure Header where
  version : Int32
  prevBlockhash : BlockHash
  merkleRoot : Bytes
  time : UInt32
  bits : UInt32
  nonce : UInt32
  deriving DecidableEq, Repr

/-- The parent of the first block of a chain. -/
def BlockHash.allZeros : BlockHash := List.replicate 32 0

structure Block where
  header : Header
  txdata : List Transaction
  deriving DecidableEq, Repr

/-- A `HashMap` from outpoints to outputs. -/
abbrev PrevoutMap := AList (fun _ : OutPoint => TxOut)

/-! ## Serialisation of integers and scripts -/

/-- Bitcoin's `CompactSize` encoding. -/
def compactSize (n : Nat) : Bytes :=
  if n < 0xfd then encode 1 n
  else if n ≤ 0xffff then 0xfd :: encode 2 n
  else if n ≤ 0xffffffff then 0xfe :: encode 4 n
  else 0xff :: encode 8 n

/-- A script in a serialised transaction: its length, then its bytes. -/
def serializeScript (s : Script) : Bytes :=
  compactSize s.length ++ s

def TxOut.serialize (o : TxOut) : Bytes :=
  encode 8 o.value.toNat ++ serializeScript o.scriptPubkey

end Bip360Enforcer
