import Bip360Enforcer.Library.Program
import Bip360Enforcer.Pqc.Validation

/-!
# The validator's databases and the programs that use them
-/

namespace Bip360Enforcer.Validator

open Pqc (P2mrUtxoBlockDiff)

/-! ## Records -/

structure BlockInfo where
  coinbaseTxid : Txid
  deriving DecidableEq, Repr

structure HeaderInfo where
  blockHash : BlockHash
  prevBlockHash : BlockHash
  height : Nat
  work : Nat
  timestamp : UInt32
  deriving DecidableEq, Repr

/-- What is broadcast to subscribers. -/
inductive Event where
  | connectBlock (headerInfo : HeaderInfo) (blockInfo : BlockInfo)
  | disconnectBlock (blockHash : BlockHash)
  deriving DecidableEq, Repr

/-- A database keyed by block hash. -/
abbrev HashDb (υ : Type) := AList fun _ : BlockHash => υ

structure Dbs where
  coinbaseTxid : HashDb Txid
  cumulativeWork : HashDb Nat
  diff : HashDb P2mrUtxoBlockDiff
  header : HashDb Header
  height : HashDb Nat
  currentChainTip : Option BlockHash
  p2mrUtxos : PrevoutMap
  deriving DecidableEq

def Dbs.empty : Dbs := ⟨∅, ∅, ∅, ∅, ∅, none, ∅⟩

/-! ## Programs -/

/-- What subscribers and readers of the databases see: an event, or the databases after a write
transaction. -/
inductive Seen where
  | sent (event : Event)
  | ended (dbs : Dbs)
  deriving DecidableEq

/-- The databases as the running program sees them, and what surrounds them. -/
structure Store where
  dbs : Dbs
  events : List Event
  /-- Whether an event was sent in the open write transaction; `none` when none is open. -/
  sent : Option Bool
  /-- Whether the n-th database operation from here fails, given that an event was sent in the open
  write transaction or not. -/
  faults : Nat → Bool → Bool
  /-- What has been seen so far, in this order. -/
  log : List Seen

namespace Store

def fails (s : Store) : Bool := s.faults 0 (s.sent.getD false)

def next (s : Store) : Store := { s with faults := fun n => s.faults (n + 1) }

def setDbs (s : Store) (dbs : Dbs) : Store := { s with dbs := dbs }

/-- Open a write transaction. -/
def begin (s : Store) : Store := { s with sent := some false }

/-- Commit the open write transaction, or give it up where `dbs` are those from before it. -/
def finish (s : Store) (dbs : Dbs) : Store :=
  { s with dbs := dbs, sent := none, log := s.log ++ [.ended dbs] }

def send (s : Store) (event : Event) : Store :=
  { s with
    events := s.events ++ [event]
    sent := s.sent.map fun _ => true
    log := s.log ++ [.sent event] }

end Store

abbrev Db (ε α : Type) := Program Store ε α

inductive DbError where
  | io
  | missingValue
  | inconsistent
  deriving DecidableEq, Repr

/-- The error types that a database error can be turned into. -/
class FromDb (ε : Type) where
  fromDb : DbError → ε

export FromDb (fromDb)

instance : FromDb DbError := ⟨id⟩

section

variable {ε α υ : Type} [FromDb ε]

/-- One operation of the environment or of a database, which may fail. -/
def access : Db ε Unit := fun s =>
  if s.fails then (.error (fromDb .io), s.next) else (.ok (), s.next)

def read (f : Dbs → α) : Db ε α := do
  access
  let s ← Program.get
  pure (f s.dbs)

def write (f : Dbs → Dbs) : Db ε Unit := do
  access
  Program.modify fun s => s.setDbs (f s.dbs)

def tryGet (db : Dbs → HashDb υ) (key : BlockHash) : Db ε (Option υ) :=
  read fun dbs => (db dbs).lookup key

/-- The value of a key that must be there. -/
def require (x : Db ε (Option α)) : Db ε α := do
  match ← x with
  | some a => pure a
  | none => Program.fail (fromDb .missingValue)

def get (db : Dbs → HashDb υ) (key : BlockHash) : Db ε υ := require (tryGet db key)

/-! ## Transactions and events -/

/-- The commit of a transaction; nothing is kept of one whose commit fails. -/
def commit : Db ε Unit := access

/-- Run `body` in a write transaction, which it commits at its end: where it fails, the databases are
as before. -/
def transaction (body : Db ε α) : Db ε α := fun s =>
  match access s with
  | (.error e, t) => (.error e, t)
  | (.ok (), t) =>
      match body t.begin with
      | (.ok a, t') => (.ok a, t'.finish t'.dbs)
      | (.error e, t') => (.error e, t'.finish t.dbs)

/-- `try_broadcast` on a channel that makes room for the event. -/
def broadcast (event : Event) : Db ε Unit := Program.modify fun s => s.send event

end

/-! ## Headers -/

inductive GetHeaderInfoError where
  | db (error : DbError)
  | missingHeader (blockHash : BlockHash)
  deriving DecidableEq, Repr

instance : FromDb GetHeaderInfoError := ⟨.db⟩

inductive LastCommonAncestorError where
  | db (error : DbError)
  | missingAncestor (blockHash : BlockHash) (depth height : Nat)
  deriving DecidableEq, Repr

instance : FromDb LastCommonAncestorError := ⟨.db⟩

section

variable (C : Crypto)

def containsHeader {ε : Type} [FromDb ε] (blockHash : BlockHash) : Db ε Bool :=
  read fun dbs => (dbs.header.lookup blockHash).isSome

def putHeader {ε : Type} [FromDb ε] (header : Header) (height : Nat) : Db ε Unit := do
  let blockHash := C.blockHash header
  write fun dbs => { dbs with header := dbs.header.insert blockHash header }
  write fun dbs => { dbs with height := dbs.height.insert blockHash height }
  if header.prevBlockhash ≠ .allZeros then
    write fun dbs => { dbs with height := dbs.height.insert header.prevBlockhash (height - 1) }

def putHeaders {ε : Type} [FromDb ε] (headers : List (Header × Nat)) : Db ε Unit :=
  headers.forM fun (header, height) => putHeader C header height

def getHeaderInfo (blockHash : BlockHash) : Db GetHeaderInfoError HeaderInfo := do
  match ← tryGet Dbs.header blockHash with
  | none => Program.fail (.missingHeader blockHash)
  | some header =>
      match ← tryGet Dbs.height blockHash with
      | none => Program.fail (.db .inconsistent)
      | some height => pure {
          blockHash := C.blockHash header
          prevBlockHash := header.prevBlockhash
          height := height
          work := C.work header
          timestamp := header.time }

end

/-- The stored headers from `blockHash` backwards, at most `n` of them. -/
def ancestorHeaders (headers : HashDb Header) : Nat → BlockHash → List (BlockHash × Header)
  | 0, _ => []
  | n + 1, blockHash =>
      match headers.lookup blockHash with
      | none => []
      | some header => (blockHash, header) :: ancestorHeaders headers n header.prevBlockhash

/-- Go back `n` blocks from `current`, which is `depth` blocks before `blockHash`. -/
def skipAncestors (headers : HashDb Header) (blockHash : BlockHash) (height : Nat) :
    Nat → Nat → BlockHash → Except LastCommonAncestorError BlockHash
  | 0, _, current => .ok current
  | n + 1, depth, current =>
      match headers.lookup current with
      | none => .error (.missingAncestor blockHash depth height)
      | some header => skipAncestors headers blockHash height n (depth + 1) header.prevBlockhash

/-- Go back in both chains, from blocks at `n - 1`, until the two are the same. -/
def commonAncestor (headers : HashDb Header) (blockHash0 blockHash1 : BlockHash)
    (height0 height1 : Nat) : Nat → BlockHash → BlockHash → Except LastCommonAncestorError BlockHash
  | 0, _, _ => .ok .allZeros
  | n + 1, current0, current1 =>
      match headers.lookup current0 with
      | none => .error (.missingAncestor blockHash0 (height0 - n) height0)
      | some header0 =>
          match headers.lookup current1 with
          | none => .error (.missingAncestor blockHash1 (height1 - n) height1)
          | some header1 =>
              if current0 = current1 then .ok current0
              else commonAncestor headers blockHash0 blockHash1 height0 height1 n
                header0.prevBlockhash header1.prevBlockhash

def findLastCommonAncestor (dbs : Dbs) (blockHash0 blockHash1 : BlockHash) :
    Except LastCommonAncestorError BlockHash :=
  if blockHash0 = blockHash1 then .ok blockHash0
  else if blockHash0 = .allZeros ∨ blockHash1 = .allZeros then .ok .allZeros
  else
    match dbs.height.lookup blockHash0, dbs.height.lookup blockHash1 with
    | some height0, some height1 => do
        let current0 ← skipAncestors dbs.header blockHash0 height0 (height0 - height1) 0 blockHash0
        let current1 ← skipAncestors dbs.header blockHash1 height1 (height1 - height0) 0 blockHash1
        commonAncestor dbs.header blockHash0 blockHash1 height0 height1 (min height0 height1 + 1)
          current0 current1
    | _, _ => .error (.db .missingValue)

def lastCommonAncestor (blockHash0 blockHash1 : BlockHash) : Db LastCommonAncestorError BlockHash := do
  let found ← read fun dbs => findLastCommonAncestor dbs blockHash0 blockHash1
  Program.ofExcept found

/-! ## Blocks -/

inductive PutBlockInfoError where
  | db (error : DbError)
  | missingHeader (blockHash : BlockHash)
  | missingParent (blockHash prevBlockHash : BlockHash)
  deriving DecidableEq, Repr

instance : FromDb PutBlockInfoError := ⟨.db⟩

/-- The work of the chain up to `blockHash`, whose header is `header`; it is below `2 ^ 256` by the
assumption of `Crypto.work`. -/
def chainWork (C : Crypto) (blockHash : BlockHash) (header : Header) : Db PutBlockInfoError Nat := do
  if header.prevBlockhash = .allZeros then pure (C.work header)
  else
    match ← tryGet Dbs.cumulativeWork header.prevBlockhash with
    | some parentCumulativeWork => pure (parentCumulativeWork + C.work header)
    | none => Program.fail (.missingParent blockHash header.prevBlockhash)

def putBlockInfo (C : Crypto) (blockHash : BlockHash) (blockInfo : BlockInfo)
    (diff : P2mrUtxoBlockDiff) : Db PutBlockInfoError Unit := do
  match ← tryGet Dbs.header blockHash with
  | none => Program.fail (.missingHeader blockHash)
  | some header =>
      let cumulativeWork ← chainWork C blockHash header
      write fun dbs =>
        { dbs with coinbaseTxid := dbs.coinbaseTxid.insert blockHash blockInfo.coinbaseTxid }
      write fun dbs =>
        { dbs with cumulativeWork := dbs.cumulativeWork.insert blockHash cumulativeWork }
      write fun dbs => { dbs with diff := dbs.diff.insert blockHash diff }

/-! ## P2MR outputs -/

section

variable {ε : Type} [FromDb ε]

def removeUtxo (outpoint : OutPoint) : Db ε Unit :=
  write fun dbs => { dbs with p2mrUtxos := dbs.p2mrUtxos.erase outpoint }

def putUtxo (entry : Sigma fun _ : OutPoint => TxOut) : Db ε Unit :=
  write fun dbs => { dbs with p2mrUtxos := dbs.p2mrUtxos.insert entry.1 entry.2 }

/-- Every spent outpoint has to be in the table. -/
def spendUtxo (outpoint : OutPoint) : Db ε Unit := do
  let _ ← require (read fun dbs => dbs.p2mrUtxos.lookup outpoint)
  removeUtxo outpoint

def applyDiff (diff : P2mrUtxoBlockDiff) : Db ε Unit := do
  diff.spent.keys.forM spendUtxo
  diff.created.entries.forM putUtxo

def undoDiff (diff : P2mrUtxoBlockDiff) : Db ε Unit := do
  diff.created.keys.forM removeUtxo
  diff.spent.entries.forM putUtxo

end

end Bip360Enforcer.Validator
