import Bip360Enforcer.Pqc.LeafScript

/-!
# The keys that a leaf script names, and those that the parser takes
-/

namespace Bip360Enforcer.Pqc

/-- A data push and its place among the instructions. -/
structure Push where
  place : Nat
  data : Bytes
  deriving DecidableEq, Repr

/-- A signature check, its place, and the pushes that are its keys. -/
structure SigCheck where
  place : Nat
  opcode : Opcode
  keys : List Push
  deriving DecidableEq, Repr

def SigCheck.sites (check : SigCheck) : List SigCheckSite :=
  check.keys.map fun key => ⟨key.data, check.opcode⟩

abbrev Entry := Item × Nat

def isMultisigOpcode (opcode : Opcode) : Prop := opcode = .checkmultisig ∨ opcode = .checkmultisigverify

instance (opcode : Opcode) : Decidable (isMultisigOpcode opcode) :=
  inferInstanceAs (Decidable (opcode = .checkmultisig ∨ opcode = .checkmultisigverify))

/-! ## As the parser takes them

The parser of `LeafScript`, with the place of every push.
-/

structure TrackedState where
  checks : List SigCheck
  lastPush : Option Push
  pushBuffer : List Push
  pendingMultisigKeys : Option Nat
  deriving DecidableEq, Repr

namespace TrackedState

def initial : TrackedState := ⟨[], none, [], none⟩

def erase (st : TrackedState) : ParserState where
  sigSites := st.checks.flatMap SigCheck.sites
  lastPush := st.lastPush.map Push.data
  pushBuffer := st.pushBuffer.map Push.data
  pendingMultisigKeys := st.pendingMultisigKeys

def addCheck (st : TrackedState) (check : SigCheck) (pushBuffer : List Push) : TrackedState :=
  ⟨st.checks ++ [check], none, pushBuffer, none⟩

end TrackedState

def validateKeys (keys : List Push) : Except LeafScriptError Unit :=
  keys.forM fun key => validatePubkeySize key.data

def trackMultisig (st : TrackedState) (keyCount place : Nat) (opcode : Opcode) :
    Except LeafScriptError TrackedState :=
  if st.pushBuffer.length < keyCount then
    .error (.multisigPubkeyCountMismatch keyCount st.pushBuffer.length)
  else do
    let start := st.pushBuffer.length - keyCount
    validateKeys (st.pushBuffer.drop start)
    .ok (st.addCheck ⟨place, opcode, st.pushBuffer.drop start⟩ (st.pushBuffer.take start))

def trackSigCheck (st : TrackedState) (opcode : Opcode) (place : Nat) :
    Except LeafScriptError TrackedState :=
  if isMultisigOpcode opcode then
    match st.pendingMultisigKeys with
    | none => .error .multisigMissingKeyCount
    | some keyCount => trackMultisig st keyCount place opcode
  else
    match st.lastPush with
    | none => .error .missingPubkeyPush
    | some key => do
        validateKeys [key]
        .ok (st.addCheck ⟨place, opcode, [key]⟩ [])

def trackPush (st : TrackedState) (push : Push) : TrackedState :=
  if push.data.isEmpty then { st with lastPush := none }
  else { st with pushBuffer := st.pushBuffer ++ [push], lastPush := some push }

def trackItem (st : TrackedState) (entry : Entry) : Except LeafScriptError TrackedState :=
  match entry.1 with
  | none => .error .invalidOpcode
  | some (.pushBytes data) => .ok (trackPush st ⟨entry.2, data⟩)
  | some (.op opcode) =>
      if opcode = .substr then .error .opSubstrForbidden
      else if isSigCheckOpcode opcode then trackSigCheck st opcode entry.2
      else
        match decodePushnum opcode with
        | some keyCount => .ok { st with pendingMultisigKeys := some keyCount, lastPush := none }
        | none =>
            if isAllowedBetweenSigSites opcode then .ok { st with lastPush := none }
            else .error (.forbiddenOpcode opcode)

/-- The signature checks of a script, with the keys that the parser takes for them. -/
def trackLeafScript (script : Script) : Except LeafScriptError (List SigCheck) :=
  ((instructions script).zipIdx.foldlM trackItem .initial).map TrackedState.checks

/-! ## As the script reads

A segment is what stands between two signature checks, the latest instruction first.
-/

def Entry.push? : Entry → Option Push
  | (some (.pushBytes data), place) => if data.isEmpty then none else some ⟨place, data⟩
  | _ => none

def Entry.count? : Entry → Option Nat
  | (some (.op opcode), _) => decodePushnum opcode
  | _ => none

def pushes (segment : List Entry) : List Push := segment.filterMap Entry.push?

/-- The last OP_N of a segment: its N, and what stands after and before it. -/
structure KeyCount where
  count : Nat
  after : List Entry
  before : List Entry

def lastCount : List Entry → Option KeyCount
  | [] => none
  | entry :: older =>
      match entry.count? with
      | some count => some ⟨count, [], older⟩
      | none => (lastCount older).map fun k => { k with after := entry :: k.after }

/-- A signature check and the segment before it. -/
structure Construct where
  segment : List Entry
  place : Nat
  opcode : Opcode

namespace Construct

/-- A multisig has the last N pushes before OP_N for its keys; another check, the push just before it. -/
def keys (c : Construct) : List Push :=
  if isMultisigOpcode c.opcode then
    match lastCount c.segment with
    | none => []
    | some k => ((pushes k.before).take k.count).reverse
  else (c.segment.head?.bind Entry.push?).toList

def named (c : Construct) : SigCheck := ⟨c.place, c.opcode, c.keys⟩

/-- A multisig without pushes after its OP_N, and with at least N before it. -/
def Clean (c : Construct) : Prop :=
  isMultisigOpcode c.opcode →
    ∀ k ∈ lastCount c.segment, pushes k.after = [] ∧ k.count ≤ (pushes k.before).length

instance (c : Construct) : Decidable c.Clean :=
  inferInstanceAs (Decidable (isMultisigOpcode c.opcode →
    ∀ k ∈ lastCount c.segment, pushes k.after = [] ∧ k.count ≤ (pushes k.before).length))

end Construct

def Entry.check? : Entry → Option Opcode
  | (some (.op opcode), _) => if isSigCheckOpcode opcode then some opcode else none
  | _ => none

/-- The signature checks among `entries`, where `segment` stands before these. -/
def constructs : List Entry → List Entry → List Construct
  | _, [] => []
  | segment, entry :: rest =>
      match entry.check? with
      | some opcode => ⟨segment, entry.2, opcode⟩ :: constructs [] rest
      | none => constructs (entry :: segment) rest

def scriptConstructs (script : Script) : List Construct := constructs [] (instructions script).zipIdx

end Bip360Enforcer.Pqc
