import Bip360Enforcer.Bitcoin.Types
import Bip360Enforcer.Library.FileSystem

/-!
# The seed of the wallet and the file that it is stored in
-/

namespace Bip360Enforcer.Wallet

open Machine (nothing openFile pathExists readFile renameFile syncAll syncDir writeAll)

/-! ## Seed files -/

structure EncryptedMnemonic where
  initializationVector : Bytes
  ciphertextMnemonic : Bytes
  keySalt : Bytes
  deriving DecidableEq, Repr

inductive StoredSeed where
  | plaintext (mnemonic : Bytes)
  | encrypted (mnemonic : EncryptedMnemonic)
  deriving DecidableEq, Repr

structure SeedFile where
  version : Nat
  createdAt : Nat
  birthdayHeight : Option Nat
  seed : StoredSeed
  deriving DecidableEq, Repr

def SeedFile.currentVersion : Nat := 1

/-- The crates for mnemonics, passwords, ciphers and JSON. -/
structure SeedCrates (μ : Type) where
  toString : μ → Bytes
  /-- `Mnemonic::parse_in_normalized`, in English. -/
  parseInNormalized : Bytes → Option μ
  /-- `Mnemonic::from_str`, on the bytes of a string. -/
  fromStr : Bytes → Option μ
  hashPassword : (password salt : Bytes) → Option Bytes
  encrypt : (key nonce plaintext : Bytes) → Option Bytes
  decrypt : (key nonce ciphertext : Bytes) → Option Bytes
  serialize : SeedFile → Bytes
  deserialize : Bytes → Option SeedFile

section

variable {μ : Type} (crates : SeedCrates μ)

namespace EncryptedMnemonic

/-- The salt and the nonce are drawn at random. -/
def encrypt (mnemonic : μ) (password keySalt nonce : Bytes) : Option EncryptedMnemonic := do
  let key ← crates.hashPassword password keySalt
  let cipheredData ← crates.encrypt key nonce (crates.toString mnemonic)
  some ⟨nonce, cipheredData, keySalt⟩

def decrypt (encrypted : EncryptedMnemonic) (password : Bytes) : Option μ := do
  let key ← crates.hashPassword password encrypted.keySalt
  let plaintext ← crates.decrypt key encrypted.initializationVector encrypted.ciphertextMnemonic
  crates.fromStr plaintext

end EncryptedMnemonic

/-! ## The store -/

inductive SeedPath where
  | path
  | tmpPath
  deriving DecidableEq, Repr

inductive WalletError where
  | io (source : FileError)
  | json
  | parseMnemonic
  | alreadyExists
  | alreadyUnlocked
  | notFound
  | notEncrypted
  | invalidPassword
  | generateMnemonic
  | fetchBirthdayHeight
  | encryptMnemonic
  | initFromMnemonic
  deriving DecidableEq, Repr

abbrev SeedM (ε α : Type) := Program (Machine SeedPath UInt8) ε α

def readSeedFile : SeedM WalletError (Option SeedFile) := do
  let contents ← Program.attempt (readFile SeedPath.path)
  match contents with
  | .error .notFound => pure none
  | .error err => Program.fail (.io err)
  | .ok contents =>
      match crates.deserialize contents with
      | none => Program.fail .json
      | some seedFile => pure (some seedFile)

def writeSeedFile (seedFile : SeedFile) : SeedM FileError Unit := do
  let file ← openFile .tmpPath
  writeAll file (crates.serialize seedFile)
  syncAll file
  renameFile .tmpPath .path
  -- The directory is opened to be flushed.
  nothing
  syncDir

def readMnemonic : SeedM WalletError (Option (μ ⊕ EncryptedMnemonic)) := do
  let seedFile ← readSeedFile crates
  match seedFile.map SeedFile.seed with
  | none => pure none
  | some (.plaintext mnemonic) =>
      match crates.parseInNormalized mnemonic with
      | none => Program.fail .parseMnemonic
      | some mnemonic => pure (some (.inl mnemonic))
  | some (.encrypted mnemonic) => pure (some (.inr mnemonic))

def readBirthdayHeight : SeedM WalletError (Option Nat) := do
  let seedFile ← readSeedFile crates
  pure (seedFile.bind SeedFile.birthdayHeight)

/-- The seed is stored, if there is none yet. -/
def insertSeed (seed : StoredSeed) (birthdayHeight : Option Nat) (now : Nat) : SeedM WalletError Unit := do
  let present ← Program.mapError .io (pathExists .path)
  if present then Program.fail .alreadyExists
  else Program.mapError .io (writeSeedFile crates ⟨SeedFile.currentVersion, now, birthdayHeight, seed⟩)

/-! ## The wallet -/

/-- The data directory, and the mnemonic of the BDK wallet once it is unlocked. -/
structure WalletState (μ : Type) where
  disk : Machine SeedPath UInt8
  bitcoinWallet : Option μ

def WalletState.initial : WalletState μ := ⟨⟨.empty, fun _ => .none⟩, none⟩

abbrev WalletM (μ α : Type) := Program (WalletState μ) WalletError α

def onDisk {α : Type} (x : SeedM WalletError α) : WalletM μ α :=
  Program.focus WalletState.disk (fun disk st => { st with disk := disk }) x

/-- What a call finds around it. -/
structure CallContext (μ : Type) where
  newMnemonic : Option μ
  keySalt : Bytes
  nonce : Bytes
  now : Nat
  /-- The height that the node answers with. -/
  blocks : Option Nat
  /-- Whether the BDK wallet of a mnemonic can be loaded or created. -/
  initializes : μ → Bool

variable (context : CallContext μ)

def initializeWalletFromMnemonic (mnemonic : μ) : WalletM μ Unit :=
  if context.initializes mnemonic then Program.modify fun st => { st with bitcoinWallet := some mnemonic }
  else Program.fail .initFromMnemonic

/-- The mnemonic of a new wallet, and its birthday if it is generated. -/
def newWalletMnemonic (mnemonic : Option μ) : WalletM μ (μ × Option Nat) :=
  match mnemonic with
  | some mnemonic => pure (mnemonic, none)
  | none =>
      match context.newMnemonic with
      | none => Program.fail .generateMnemonic
      | some mnemonic =>
          match context.blocks with
          | none => Program.fail .fetchBirthdayHeight
          | some blocks => pure (mnemonic, some blocks)

def storedSeed (mnemonic : μ) (password : Option Bytes) : Except WalletError StoredSeed :=
  match password with
  | none => .ok (.plaintext (crates.toString mnemonic))
  | some password =>
      match EncryptedMnemonic.encrypt crates mnemonic password context.keySalt context.nonce with
      | none => .error .encryptMnemonic
      | some encrypted => .ok (.encrypted encrypted)

def createNewWallet (mnemonic : Option μ) (password : Option Bytes) : WalletM μ Unit := do
  let (mnemonic, birthdayHeight) ← newWalletMnemonic context mnemonic
  let seed ← Program.ofExcept (storedSeed crates context mnemonic password)
  onDisk (insertSeed crates seed birthdayHeight context.now)
  initializeWalletFromMnemonic context mnemonic

def unlockExistingWallet (password : Bytes) : WalletM μ Unit := do
  let st ← Program.get
  if st.bitcoinWallet.isSome then Program.fail .alreadyUnlocked
  else do
    let read ← onDisk (readMnemonic crates)
    match read with
    | none => Program.fail .notFound
    | some (.inl _) => Program.fail .notEncrypted
    | some (.inr encrypted) =>
        match encrypted.decrypt crates password with
        | none => Program.fail .invalidPassword
        | some mnemonic => initializeWalletFromMnemonic context mnemonic

/-- The wallet when the process starts: a seed without a password is unlocked at once. -/
def newWalletInner : WalletM μ Unit := do
  Program.modify fun st => { st with bitcoinWallet := none }
  let read ← onDisk (readMnemonic crates)
  match read with
  | some (.inl mnemonic) => initializeWalletFromMnemonic context mnemonic
  | _ => pure ()

/-! ## Runs -/

inductive WalletCall (μ : Type) where
  | createNewWallet (mnemonic : Option μ) (password : Option Bytes)
  | unlockExistingWallet (password : Bytes)
  | newWalletInner

def WalletCall.program (call : WalletCall μ) : WalletM μ Unit :=
  match call with
  | .createNewWallet mnemonic password => Wallet.createNewWallet crates context mnemonic password
  | .unlockExistingWallet password => Wallet.unlockExistingWallet crates context password
  | .newWalletInner => Wallet.newWalletInner crates context

/-- A call, with what it finds around it and what goes wrong in the meantime. -/
structure WalletEvent (μ : Type) where
  call : WalletCall μ
  context : CallContext μ
  faults : Nat → FileFault UInt8

def WalletState.withFaults (st : WalletState μ) (faults : Nat → FileFault UInt8) : WalletState μ :=
  { st with disk := ⟨st.disk.fs, faults⟩ }

/-- What is in memory is lost when the machine crashes. -/
def WalletState.after (st : WalletState μ) : Except WalletError Unit → WalletState μ
  | .error (.io .crashed) => { st with bitcoinWallet := none }
  | _ => st

def runEvent (event : WalletEvent μ) : WalletM μ Unit := fun st =>
  let result := event.call.program crates event.context (st.withFaults event.faults)
  (result.1, result.2.after result.1)

def runEvents : List (WalletEvent μ) → WalletState μ → WalletState μ
  | [], st => st
  | event :: events, st => runEvents events (runEvent crates event st).2

/-- The process is started again, and the wallet is unlocked. -/
def reopen (password : Option Bytes) : List (WalletEvent μ) :=
  ⟨.newWalletInner, context, fun _ => .none⟩ ::
    password.toList.map fun password => ⟨.unlockExistingWallet password, context, fun _ => .none⟩

end

end Bip360Enforcer.Wallet
