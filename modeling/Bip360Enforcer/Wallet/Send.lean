import Bip360Enforcer.BlockProducer.Queue
import Bip360Enforcer.Library.Collect
import Bip360Enforcer.Library.Program

/-!
# Sending from the wallet
-/

namespace Bip360Enforcer.Wallet

/-! ## Errors -/

inductive ErrorCode where
  | invalidArgument
  | unknown
  deriving DecidableEq, Repr

structure ConnectError where
  code : ErrorCode
  message : String
  deriving DecidableEq, Repr

namespace ConnectError

def invalidArgument (message : String) : ConnectError := ⟨.invalidArgument, message⟩

def missingField (messageName fieldName : String) : ConnectError :=
  invalidArgument s!"Missing field in message `{messageName}`: `{fieldName}`"

def invalidFieldValue (messageName fieldName value source : String) : ConnectError :=
  invalidArgument
    s!"Invalid field value in field `{fieldName}` of message `{messageName}`: `{value}`: {source}"

end ConnectError

/-- An error of the node's interface. -/
inductive ClientError where
  | call (code : Int) (message : String)
  | other (message : String)
  deriving DecidableEq, Repr

def ClientError.message : ClientError → String
  | call _ message | other message => message

/-- The errors of other crates come with their text. -/
inductive CreateSendPsbtError where
  | createTx (source : String)
  | notUnlocked
  | script (source : String)
  | unknownUtxo (outpoint : OutPoint)
  deriving DecidableEq, Repr

inductive WalletSignTransactionError where
  | notUnlocked
  | signerError (source : String)
  | extractTx (source : String)
  | unableToSign
  deriving DecidableEq, Repr

inductive SendWalletTransactionError where
  | broadcastTx (source : ClientError)
  | createSendPsbt (source : CreateSendPsbtError)
  | signTransaction (source : WalletSignTransactionError)
  | nonstandardTxNotSupported
  | notUnlocked
  | persistence (source : String)
  deriving DecidableEq, Repr

/-! ## Requests -/

/-- A message that holds bytes as text. -/
structure Hex where
  hex : Option String
  deriving DecidableEq, Repr

structure ReverseHex where
  hex : Option String
  deriving DecidableEq, Repr

inductive Fee where
  | satPerVbyte (satsPerVbyte : UInt64)
  | sats (sats : UInt64)
  deriving DecidableEq, Repr

/-- The message, whose one field may be missing. -/
structure FeeRateMessage where
  fee : Option Fee
  deriving DecidableEq, Repr

structure RequiredUtxo where
  txid : Option ReverseHex
  vout : UInt32
  deriving DecidableEq, Repr

structure SendTransactionRequest where
  destinations : AList fun _ : String => UInt64
  feeRate : Option FeeRateMessage
  opReturnMessage : Option Hex
  requiredUtxos : List RequiredUtxo
  drainWalletTo : Option String

/-- A fee rate in satoshi for each 1000 weight units. -/
abbrev FeeRate := UInt64

inductive FeePolicy where
  | absolute (fee : Amount)
  | rate (rate : FeeRate)
  deriving DecidableEq, Repr

structure CreateTransactionParams (Address : Type) where
  feePolicy : Option FeePolicy
  opReturnMessage : Option Bytes
  requiredUtxos : List OutPoint
  drainWalletTo : Option Address

/-! ## Libraries -/

/-- What a transaction builder is told. -/
structure TxBuilder where
  recipients : List TxOut := []
  drainTo : Option Script := none
  drainWallet : Bool := false
  utxos : List OutPoint := []
  manuallySelectedOnly : Bool := false
  feePolicy : Option FeePolicy := none
  deriving DecidableEq, Repr

def TxBuilder.addRecipient (builder : TxBuilder) (scriptPubkey : Script) (amount : Amount) : TxBuilder :=
  { builder with recipients := builder.recipients ++ [⟨amount, scriptPubkey⟩] }

/-- The parts of other crates that sending uses: addresses of type `A`, wallets of type `W` and partially
signed transactions of type `P`. -/
structure Bdk (A W P : Type) where
  network : String
  decodeTxid : String → Except String Txid
  decodeHex : String → Except String Bytes
  /-- `Address::from_str`. -/
  addressFromStr : String → Except String A
  isValidForNetwork : A → Bool
  scriptPubkey : A → Script
  displayAddress : A → String
  displayAmount : Amount → String
  displayTxid : Txid → String
  /-- `Amount::is_dust`. -/
  isDust : Amount → Script → Bool
  feeRateFromSatPerVb : UInt64 → Option FeeRate
  /-- The script of an `OP_RETURN` output, unless the data is too long to be pushed. -/
  newOpReturn : Bytes → Except String Script
  hasUtxo : W → OutPoint → Bool
  finish : W → TxBuilder → Except String P × W
  /-- The outputs of the unsigned transaction. -/
  outputs : P → List TxOut
  /-- The output that `finish` adds to the recipients for what is left over. -/
  change : W → TxBuilder → Option TxOut
  /-- Whether all inputs are signed. -/
  sign : W → P → Except String (Bool × P)
  extractTx : P → Except String Transaction
  applyUnconfirmedTx : W → Transaction → W
  persist : W → Except String W

/-- The wallet, if it is unlocked, and the transactions that the node has taken from it. -/
structure SendState (W : Type) where
  bitcoinWallet : Option W
  broadcast : List Transaction

/-- The node's answer to a transaction, given those that it has taken before. -/
abbrev Node := List Transaction → Transaction → Except ClientError Txid

section

variable {A W P : Type} [DecidableEq A] (bdk : Bdk A W P)

/-! ## Validation -/

def Hex.decode (messageName fieldName : String) (message : Hex) : Except ConnectError Bytes :=
  match message.hex with
  | none => .error (.missingField "cusf.common.v1.Hex" "hex")
  | some hex => (bdk.decodeHex hex).mapError (.invalidFieldValue messageName fieldName hex)

def ReverseHex.decode (messageName fieldName : String) (message : ReverseHex) : Except ConnectError Txid :=
  match message.hex with
  | none => .error (.missingField "cusf.common.v1.ReverseHex" "hex")
  | some hex => (bdk.decodeTxid hex).mapError (.invalidFieldValue messageName fieldName hex)

def FeeRateMessage.feePolicy (feeRate : FeeRateMessage) : Except ConnectError FeePolicy :=
  let messageName := "cusf.mainchain.v1.SendTransactionRequest.FeeRate"
  match feeRate.fee with
  | none => .error (.missingField messageName "fee")
  | some (.sats sats) => .ok (.absolute sats)
  | some (.satPerVbyte satsPerVbyte) =>
      match bdk.feeRateFromSatPerVb satsPerVbyte with
      | some rate => .ok (.rate rate)
      | none =>
          .error (.invalidFieldValue messageName "fee" (toString satsPerVbyte) "Invalid sats per vbyte")

def RequiredUtxo.outpoint (utxo : RequiredUtxo) : Except ConnectError OutPoint :=
  let messageName := "cusf.mainchain.v1.SendTransactionRequest.RequiredUtxo"
  match utxo.txid with
  | none => .error (.missingField messageName "txid")
  | some txid => do
      let txid ← txid.decode bdk messageName "txid"
      .ok ⟨txid, utxo.vout⟩

def parseCheckedAddress (address : String) : Except ConnectError A :=
  match bdk.addressFromStr address with
  | .error err => .error (.invalidArgument s!"invalid bitcoin address: {err}")
  | .ok address =>
      if bdk.isValidForNetwork address then .ok address
      else
        let network := bdk.network
        .error (.invalidArgument s!"bitcoin address is not valid for network `{network}`")

/-- One destination of a request. -/
def validateDestination (address : String) (amount : UInt64) : Except ConnectError (A × Amount) := do
  let address ← parseCheckedAddress bdk address
  if bdk.isDust amount (bdk.scriptPubkey address) then
    let shownAmount := bdk.displayAmount amount
    let shownAddress := bdk.displayAddress address
    .error (.invalidArgument s!"amount is below dust limit: {shownAmount} to {shownAddress}")
  else .ok (address, amount)

/-- The destinations by address; the first error ends the validation. -/
def validateDestinations (destinations : AList fun _ : String => UInt64) :
    Except ConnectError (AList fun _ : A => Amount) := do
  let pairs ← destinations.entries.mapM fun entry => validateDestination bdk entry.1 entry.2
  .ok (AList.collect pairs)

/-- What `send_transaction` makes of a request before it sends. -/
def validateRequest (request : SendTransactionRequest) :
    Except ConnectError ((AList fun _ : A => Amount) × CreateTransactionParams A) := do
  let requiredUtxos ← request.requiredUtxos.mapM (RequiredUtxo.outpoint bdk)
  let destinationsValidated ← validateDestinations bdk request.destinations
  if destinationsValidated.entries.isEmpty && request.opReturnMessage.isNone &&
      request.drainWalletTo.isNone then
    .error (.invalidArgument "no destinations or op_return_message provided")
  else do
    let drainWalletTo ← request.drainWalletTo.mapM (parseCheckedAddress bdk)
    if drainWalletTo.isSome && !requiredUtxos.isEmpty then
      .error (.invalidArgument "cannot provide both drain_wallet_to and required_utxos")
    else do
      let feePolicy ← request.feeRate.mapM (FeeRateMessage.feePolicy bdk)
      let opReturnMessage ← request.opReturnMessage.mapM
        (Hex.decode bdk "cusf.mainchain.v1.SendTransactionRequest" "op_return_message")
      .ok (destinationsValidated, { feePolicy, opReturnMessage, requiredUtxos, drainWalletTo })

/-! ## Building -/

/-- The recipient of the message comes first. -/
def createOpReturnOutput (message : Bytes) : Except CreateSendPsbtError TxOut := do
  let scriptPubkey ← (bdk.newOpReturn message).mapError .script
  .ok ⟨0, scriptPubkey⟩

/-- Add the message, if there is one. -/
def addOpReturn (message : Option Bytes) (builder : TxBuilder) : Except CreateSendPsbtError TxBuilder :=
  match message with
  | none => .ok builder
  | some message => do
      let output ← createOpReturnOutput bdk message
      .ok (builder.addRecipient output.scriptPubkey output.value)

def addDestinations (destinations : AList fun _ : A => Amount) (builder : TxBuilder) : TxBuilder :=
  destinations.entries.foldl
    (fun builder entry => builder.addRecipient (bdk.scriptPubkey entry.1) entry.2) builder

def drain (drainWalletTo : Option A) (builder : TxBuilder) : TxBuilder :=
  match drainWalletTo with
  | none => builder
  | some address => { builder with drainTo := some (bdk.scriptPubkey address), drainWallet := true }

def addRequiredUtxos (wallet : W) (requiredUtxos : List OutPoint) (builder : TxBuilder) :
    Except CreateSendPsbtError TxBuilder :=
  if requiredUtxos.isEmpty then .ok builder
  else
    match requiredUtxos.find? fun outpoint => !bdk.hasUtxo wallet outpoint with
    | some outpoint => .error (.unknownUtxo outpoint)
    | none => .ok { builder with utxos := requiredUtxos, manuallySelectedOnly := true }

/-- The builder as `create_send_psbt` finishes it. -/
def sendBuilder (wallet : W) (destinations : AList fun _ : A => Amount)
    (params : CreateTransactionParams A) : Except CreateSendPsbtError TxBuilder := do
  let builder ← addOpReturn bdk params.opReturnMessage {}
  let builder := addDestinations bdk destinations builder
  let builder := drain bdk params.drainWalletTo builder
  let builder ← addRequiredUtxos bdk wallet params.requiredUtxos builder
  .ok { builder with feePolicy := params.feePolicy }

/-! ## Sending -/

def unlockedWallet {ε : Type} (locked : ε) : Program (SendState W) ε W := do
  let st ← Program.get
  match st.bitcoinWallet with
  | none => Program.fail locked
  | some wallet => pure wallet

def setWallet {ε : Type} (wallet : W) : Program (SendState W) ε Unit :=
  Program.modify fun st => { st with bitcoinWallet := some wallet }

def createSendPsbt (destinations : AList fun _ : A => Amount) (params : CreateTransactionParams A) :
    Program (SendState W) CreateSendPsbtError P := do
  let wallet ← unlockedWallet .notUnlocked
  let builder ← Program.ofExcept (sendBuilder bdk wallet destinations params)
  let (psbt, wallet) := bdk.finish wallet builder
  setWallet wallet
  Program.ofExcept (psbt.mapError .createTx)

def signTransaction (psbt : P) : Program (SendState W) WalletSignTransactionError Transaction := do
  let wallet ← unlockedWallet .notUnlocked
  let (signed, psbt) ← Program.ofExcept ((bdk.sign wallet psbt).mapError .signerError)
  if !signed then Program.fail .unableToSign
  else Program.ofExcept ((bdk.extractTx psbt).mapError .extractTx)

def nonstandardNopxErrMsg : String :=
  "non-mandatory-script-verify-flag (NOPx reserved for soft-fork upgrades)"

def nonstandardNopxErrMsgV30 : String :=
  "mempool-script-verify-flag-failed (NOPx reserved for soft-fork upgrades)"

def isNonstandardNopx (message : String) : Bool :=
  nonstandardNopxErrMsg.toList <:+: message.toList || nonstandardNopxErrMsgV30.toList <:+: message.toList

/-- No txid for a transaction that the node rejects as nonstandard. -/
def broadcastTransaction (node : Node) (tx : Transaction) :
    Program (SendState W) ClientError (Option Txid) := do
  let st ← Program.get
  match node st.broadcast tx with
  | .ok txid => do
      Program.modify fun st => { st with broadcast := st.broadcast ++ [tx] }
      pure (some txid)
  | .error (.call code message) =>
      if isNonstandardNopx message then pure none else Program.fail (.call code message)
  | .error err => Program.fail err

/-- Apply the unconfirmed transaction to the wallet. -/
def applyUnconfirmed (tx : Transaction) : Program (SendState W) SendWalletTransactionError Unit := do
  let wallet ← unlockedWallet .notUnlocked
  let wallet := bdk.applyUnconfirmedTx wallet tx
  setWallet wallet
  let wallet ← Program.ofExcept ((bdk.persist wallet).mapError .persistence)
  setWallet wallet

/-! ## Errors of the reply -/

def CreateSendPsbtError.toConnectError : CreateSendPsbtError → ConnectError
  | createTx source | script source => ⟨.unknown, source⟩
  | notUnlocked => ⟨.unknown, "enforcer wallet not unlocked"⟩
  | unknownUtxo outpoint =>
      let txid := bdk.displayTxid outpoint.txid
      let vout := outpoint.vout
      .invalidArgument s!"UTXO is not in wallet (`{txid}:{vout}`)"

def WalletSignTransactionError.toConnectError : WalletSignTransactionError → ConnectError
  | notUnlocked => ⟨.unknown, "enforcer wallet not unlocked"⟩
  | signerError source | extractTx source => ⟨.unknown, source⟩
  | unableToSign => ⟨.unknown, "unable to sign transaction"⟩

def SendWalletTransactionError.toConnectError : SendWalletTransactionError → ConnectError
  | broadcastTx source =>
      let message := source.message
      ⟨.unknown, s!"failed to broadcast tx: {message}"⟩
  | createSendPsbt source => source.toConnectError bdk
  | signTransaction source => source.toConnectError
  | nonstandardTxNotSupported =>
      ⟨.unknown, "failed to broadcast nonstandard transaction (make sure your node has " ++
        "'acceptnonstdtxn=1' in its configuration)"⟩
  | notUnlocked => ⟨.unknown, "enforcer wallet not unlocked"⟩
  | persistence source => ⟨.unknown, source⟩

/-! ## The call -/

variable (C : Crypto) (node : Node)

/-- Create a transaction, send it, and return its txid. -/
def sendWalletTransaction (destinations : AList fun _ : A => Amount) (params : CreateTransactionParams A) :
    Program (SendState W) SendWalletTransactionError Txid := do
  let psbt ← Program.mapError .createSendPsbt (createSendPsbt bdk destinations params)
  let tx ← Program.mapError .signTransaction (signTransaction bdk psbt)
  let txid := C.computeTxid tx
  match ← Program.mapError .broadcastTx (broadcastTransaction node tx) with
  | none => Program.fail .nonstandardTxNotSupported
  | some _ => do
      applyUnconfirmed bdk tx
      pure txid

def sendTransaction (request : SendTransactionRequest) : Program (SendState W) ConnectError Txid := do
  let (destinations, params) ← Program.ofExcept (validateRequest bdk request)
  Program.mapError (SendWalletTransactionError.toConnectError bdk)
    (sendWalletTransaction bdk C node destinations params)

end

end Bip360Enforcer.Wallet
