import Bip360Enforcer.Library.FileSystem
import Bip360Enforcer.Wallet.P2mrStore

/-!
# The file of the P2MR keys
-/

namespace Bip360Enforcer.Wallet

open Machine (nothing openFile renameFile syncAll writeAll)

inductive P2mrPath where
  | path
  | tmp
  deriving DecidableEq, Repr

structure P2mrFile where
  version : Nat
  addresses : P2mrStore
  deriving DecidableEq, Repr

def P2mrFile.currentVersion : Nat := 1

inductive P2mrFileError where
  | read (source : FileError)
  | write (source : FileError)
  | serialize
  | deserialize
  | entropy
  | store (source : P2mrStoreError)
  deriving DecidableEq, Repr

/-- The JSON crate. -/
structure P2mrJson where
  isUtf8 : Bytes → Bool
  toStringPretty : P2mrFile → Option Bytes
  fromStr : Bytes → Option P2mrFile

variable (C : Crypto) (S : Pqc.Signers) (json : P2mrJson)

abbrev P2mrM (α : Type) := Program (Machine P2mrPath UInt8) P2mrFileError α

namespace P2mrFile

def readFile : P2mrM P2mrFile := do
  let contents ← Program.attempt (Machine.readFile P2mrPath.path)
  match contents with
  | .error .notFound => pure ⟨currentVersion, []⟩
  | .error err => Program.fail (.read err)
  | .ok contents =>
      if json.isUtf8 contents then
        match json.fromStr contents with
        | none => Program.fail .deserialize
        | some file => pure file
      else Program.fail (.read .io)

/-- The directory is not flushed. -/
def replaceFile (contents : Bytes) : Program (Machine P2mrPath UInt8) FileError Unit := do
  let f ← openFile .tmp
  -- The permissions are set.
  nothing
  writeAll f contents
  syncAll f
  renameFile .tmp .path

def writeFile (file : P2mrFile) : P2mrM Unit :=
  match json.toStringPretty file with
  | none => Program.fail .serialize
  | some contents => Program.mapError .write (replaceFile contents)

/-- The entropy is drawn at random, which may fail. -/
def create (scheme : P2mrScheme) (entropy : Option Bytes) : P2mrM P2mrAddressRecord :=
  match entropy with
  | none => Program.fail .entropy
  | some entropy => do
      let record ← Program.ofExcept ((buildRecord C S scheme entropy).mapError .store)
      let file ← readFile json
      writeFile json ⟨currentVersion, file.addresses ++ [record]⟩
      pure record

def list : P2mrM P2mrStore := do
  let file ← readFile json
  pure file.addresses

def getBySpk (spk : Script) : P2mrM (Option P2mrAddressRecord) := do
  let file ← readFile json
  pure (file.addresses.getBySpk spk)

end P2mrFile

/-! ## Runs -/

inductive P2mrCall where
  | create (scheme : P2mrScheme) (entropy : Option Bytes)
  | list
  | getBySpk (spk : Script)

inductive P2mrAnswer where
  | created (record : P2mrAddressRecord)
  | listed (store : P2mrStore)
  | found (record : Option P2mrAddressRecord)
  deriving DecidableEq, Repr

def P2mrCall.program : P2mrCall → P2mrM P2mrAnswer
  | .create scheme entropy => do
      let record ← P2mrFile.create C S json scheme entropy
      pure (.created record)
  | .list => do
      let store ← P2mrFile.list json
      pure (.listed store)
  | .getBySpk spk => do
      let record ← P2mrFile.getBySpk json spk
      pure (.found record)

/-- A call, and what goes wrong in the meantime. -/
structure P2mrEvent where
  call : P2mrCall
  faults : Nat → FileFault UInt8

/-- The answers to the calls, and the directory at the end. -/
def P2mrFile.run : List P2mrEvent → FileSystem P2mrPath UInt8 →
    List (Except P2mrFileError P2mrAnswer) × FileSystem P2mrPath UInt8
  | [], fs => ([], fs)
  | event :: events, fs =>
      let result := event.call.program C S json ⟨fs, event.faults⟩
      let later := run events result.2.fs
      (result.1 :: later.1, later.2)

end Bip360Enforcer.Wallet
