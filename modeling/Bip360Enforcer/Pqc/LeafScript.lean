import Bip360Enforcer.Pqc.Limits

/-!
# The parser of P2MR leaf scripts
-/

namespace Bip360Enforcer.Pqc

inductive LeafScriptError where
  | opSubstrForbidden
  | invalidPush
  | invalidOpcode
  | forbiddenOpcode (opcode : Opcode)
  | noSigCheckOpcode
  | missingPubkeyPush
  | invalidPubkeySize (size : Nat)
  | witnessSigCountMismatch (witnessSigs scriptSites : Nat)
  | multisigMissingKeyCount
  | multisigPubkeyCountMismatch (expected found : Nat)
  | danglingMultisigKeyCount
  | leafScriptTooLarge
  | emptyScript
  deriving DecidableEq, Repr

/-- A public key and the opcode that checks a signature for it. -/
structure SigCheckSite where
  pubkey : Bytes
  opcode : Opcode
  deriving DecidableEq, Repr

structure ParsedLeafScript where
  sigSites : List SigCheckSite
  deriving DecidableEq, Repr

def sigCheckOpcodes : List Opcode :=
  [.checksig, .checksigverify, .checksigadd, .checkmultisig, .checkmultisigverify]

def isSigCheckOpcode (opcode : Opcode) : Bool := sigCheckOpcodes.contains opcode

def decodePushnum : Opcode → Option Nat
  | .pushnum n => some (n + 1)
  | _ => none

def isAllowedBetweenSigSites : Opcode → Bool
  | .booland | .verify | .pushnum _ => true
  | _ => false

def validatePubkeySize (pubkey : Bytes) : Except LeafScriptError Unit :=
  if pubkey.length = slhDsaPublicKeySize ∨ pubkey.length = mlDsa44PublicKeySize then .ok ()
  else .error (.invalidPubkeySize pubkey.length)

/-- What the parser carries from one instruction to the next. -/
structure ParserState where
  sigSites : List SigCheckSite
  lastPush : Option Bytes
  pushBuffer : List Bytes
  pendingMultisigKeys : Option Nat
  deriving DecidableEq, Repr

def ParserState.initial : ParserState := ⟨[], none, [], none⟩

def pushSingleSigSite (opcode : Opcode) (sigSites : List SigCheckSite) (pubkey : Bytes) :
    Except LeafScriptError (List SigCheckSite) := do
  validatePubkeySize pubkey
  .ok (sigSites ++ [⟨pubkey, opcode⟩])

/-- The sites of a multisig opcode: one for each of the last `keyCount` pushes, which are removed. -/
def pushMultisigSites (st : ParserState) (keyCount : Nat) (opcode : Opcode) :
    Except LeafScriptError ParserState :=
  if st.pushBuffer.length < keyCount then
    .error (.multisigPubkeyCountMismatch keyCount st.pushBuffer.length)
  else do
    let start := st.pushBuffer.length - keyCount
    let sigSites ← (st.pushBuffer.drop start).foldlM (pushSingleSigSite opcode) st.sigSites
    .ok { st with sigSites := sigSites, pushBuffer := st.pushBuffer.take start }

def parsePush (st : ParserState) (data : Bytes) : ParserState :=
  if data.isEmpty then { st with lastPush := none }
  else { st with pushBuffer := st.pushBuffer ++ [data], lastPush := some data }

def parseSigCheck (st : ParserState) (opcode : Opcode) : Except LeafScriptError ParserState :=
  if opcode = .checkmultisig ∨ opcode = .checkmultisigverify then
    match st.pendingMultisigKeys with
    | none => .error .multisigMissingKeyCount
    | some keyCount => do
        let st ← pushMultisigSites { st with pendingMultisigKeys := none } keyCount opcode
        .ok { st with lastPush := none }
  else
    match st.lastPush with
    | none => .error .missingPubkeyPush
    | some pubkey => do
        let sigSites ← pushSingleSigSite opcode st.sigSites pubkey
        .ok ⟨sigSites, none, [], none⟩

def parseItem (st : ParserState) (item : Item) : Except LeafScriptError ParserState :=
  match item with
  | none => .error .invalidOpcode
  | some (.pushBytes data) => .ok (parsePush st data)
  | some (.op opcode) =>
      if opcode = .substr then .error .opSubstrForbidden
      else if isSigCheckOpcode opcode then parseSigCheck st opcode
      else
        match decodePushnum opcode with
        | some keyCount => .ok { st with pendingMultisigKeys := some keyCount, lastPush := none }
        | none =>
            if isAllowedBetweenSigSites opcode then .ok { st with lastPush := none }
            else .error (.forbiddenOpcode opcode)

def parseLeafScript (script : Script) : Except LeafScriptError ParsedLeafScript :=
  if script.isEmpty then .error .emptyScript
  else if script.length > maxP2mrLeafScriptSize then .error .leafScriptTooLarge
  else do
    let st ← (instructions script).foldlM parseItem .initial
    if st.pendingMultisigKeys.isSome then .error .danglingMultisigKeyCount
    else if st.sigSites.isEmpty then .error .noSigCheckOpcode
    else .ok ⟨st.sigSites⟩

def validateWitnessSigCount (script : Script) (witnessSigCount : Nat) :
    Except LeafScriptError ParsedLeafScript := do
  let parsed ← parseLeafScript script
  let scriptSites := parsed.sigSites.length
  if witnessSigCount ≠ scriptSites then
    .error (.witnessSigCountMismatch witnessSigCount scriptSites)
  else .ok parsed

end Bip360Enforcer.Pqc
