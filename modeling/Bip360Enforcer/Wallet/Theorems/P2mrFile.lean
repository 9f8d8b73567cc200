import Bip360Enforcer.Wallet.Lemmas.P2mrFile
import Bip360Enforcer.Wallet.Theorems.Spends

/-!
# The file of the P2MR keys is a list that grows
-/

namespace Bip360Enforcer.Wallet

namespace P2mrFile

open Machine (Blamed Spec)

section

variable (C : Crypto) (S : Pqc.Signers) (json : P2mrJson)

/-! ## The list -/

/-- Why a call fails that leaves everything as it is. -/
inductive Cause (faults : Set (FileFault UInt8)) (current : P2mrStore) : P2mrCall → P2mrFileError → Prop
  | read {call : P2mrCall} : Blamed faults .io → Cause faults current call (.read .io)
  | entropy {scheme : P2mrScheme} : Cause faults current (.create scheme none) .entropy
  | store {scheme : P2mrScheme} {entropy : Bytes} {source : P2mrStoreError} :
      buildRecord C S scheme entropy = .error source →
      Cause faults current (.create scheme (some entropy)) (.store source)
  | serialize {scheme : P2mrScheme} {entropy : Bytes} {record : P2mrAddressRecord} :
      buildRecord C S scheme entropy = .ok record →
      json.toStringPretty ⟨currentVersion, current ++ [record]⟩ = none →
      Cause faults current (.create scheme (some entropy)) .serialize
  | write {scheme : P2mrScheme} {entropy : Bytes} {record : P2mrAddressRecord} :
      buildRecord C S scheme entropy = .ok record → Blamed faults .io →
      Cause faults current (.create scheme (some entropy)) (.write .io)

/-- What is kept for good and what is there, before and after a call. -/
inductive StoreStep (faults : Set (FileFault UInt8)) :
    P2mrCall → Except P2mrFileError P2mrAnswer → P2mrStore × P2mrStore → P2mrStore × P2mrStore → Prop
  | created {kept current : P2mrStore} {scheme : P2mrScheme} {entropy : Bytes}
      {record : P2mrAddressRecord} : buildRecord C S scheme entropy = .ok record →
      StoreStep faults (.create scheme (some entropy)) (.ok (.created record)) (kept, current)
        (kept, current ++ [record])
  | listed {kept current : P2mrStore} :
      StoreStep faults .list (.ok (.listed current)) (kept, current) (kept, current)
  | found {kept current : P2mrStore} {spk : Script} :
      StoreStep faults (.getBySpk spk) (.ok (.found (current.getBySpk spk))) (kept, current) (kept, current)
  | failed {kept current : P2mrStore} {call : P2mrCall} {e : P2mrFileError} :
      Cause C S json faults current call e →
      StoreStep faults call (.error e) (kept, current) (kept, current)
  /-- The file is replaced, but the caller does not hear of it. -/
  | failedLate {kept current : P2mrStore} {scheme : P2mrScheme} {entropy : Bytes}
      {record : P2mrAddressRecord} : buildRecord C S scheme entropy = .ok record → Blamed faults .io →
      StoreStep faults (.create scheme (some entropy)) (.error (.write .io)) (kept, current)
        (kept, current ++ [record])
  | crashed {kept current store : P2mrStore} {call : P2mrCall} : Blamed faults .crashed →
      kept <+: store → store <+: current →
      StoreStep faults call (.error (.read .crashed)) (kept, current) (store, store)
  | crashedLate {kept current store : P2mrStore} {scheme : P2mrScheme} {entropy : Bytes}
      {record : P2mrAddressRecord} : buildRecord C S scheme entropy = .ok record → Blamed faults .crashed →
      kept <+: store → store <+: current ++ [record] →
      StoreStep faults (.create scheme (some entropy)) (.error (.write .crashed)) (kept, current)
        (store, store)

/-- The calls of a run with their answers. -/
inductive StoreRun : List P2mrEvent → List (Except P2mrFileError P2mrAnswer) → P2mrStore × P2mrStore →
    P2mrStore × P2mrStore → Prop
  | nil {st : P2mrStore × P2mrStore} : StoreRun [] [] st st
  | cons {event : P2mrEvent} {events : List P2mrEvent} {answer : Except P2mrFileError P2mrAnswer}
      {answers : List (Except P2mrFileError P2mrAnswer)} {st st' st'' : P2mrStore × P2mrStore} :
      StoreStep C S json (Set.range event.faults) event.call answer st st' →
      StoreRun events answers st' st'' → StoreRun (event :: events) (answer :: answers) st st''

end

variable {C : Crypto} {S : Pqc.Signers} {json : P2mrJson} {kept current : P2mrStore}
  {fs d : FileSystem P2mrPath UInt8} {faults : Set (FileFault UInt8)}

/-! ## What is in the list -/

/-- The machine has crashed during a call. -/
inductive Crashed : P2mrFileError → Prop
  | read : Crashed (.read .crashed)
  | write : Crashed (.write .crashed)

section

variable {call : P2mrCall} {answer : Except P2mrFileError P2mrAnswer} {st st' : P2mrStore × P2mrStore}

/-- The output is the one that the keys of the record are made for. -/
def Built (C : Crypto) (S : Pqc.Signers) (record : P2mrAddressRecord) : Prop :=
  mkOutput C S record.scheme record.entropy = .ok (record.scriptPubkey, record.leafScript)

theorem buildRecord_built {scheme : P2mrScheme} {entropy : Bytes} {record : P2mrAddressRecord}
    (h : buildRecord C S scheme entropy = .ok record) : Built C S record := by
  obtain ⟨⟨spk, leaf⟩, hout, h⟩ := Except.bind_eq_ok_iff.mp h
  cases h
  exact hout

theorem StoreStep.grows (h : StoreStep C S json faults call answer st st')
    (hcrash : ∀ e, answer = .error e → ¬ Crashed e) : st.2 <+: st'.2 := by
  cases h with
  | created _ => exact List.prefix_append _ _
  | listed => exact List.prefix_rfl
  | found => exact List.prefix_rfl
  | failed _ => exact List.prefix_rfl
  | failedLate _ _ => exact List.prefix_append _ _
  | crashed _ _ _ => exact absurd .read (hcrash _ rfl)
  | crashedLate _ _ _ _ => exact absurd .write (hcrash _ rfl)

theorem built_append {store : P2mrStore} {record : P2mrAddressRecord} (h : ∀ other ∈ store, Built C S other)
    (hrecord : Built C S record) : ∀ other ∈ store ++ [record], Built C S other := by
  intro other hother
  rcases List.mem_append.mp hother with hother | hother
  · exact h other hother
  · exact List.mem_singleton.mp hother ▸ hrecord

theorem StoreStep.built (h : StoreStep C S json faults call answer st st')
    (hst : ∀ record ∈ st.2, Built C S record) : ∀ record ∈ st'.2, Built C S record := by
  cases h with
  | created hrecord => exact built_append hst (buildRecord_built hrecord)
  | listed => exact hst
  | found => exact hst
  | failed _ => exact hst
  | failedLate hrecord _ => exact built_append hst (buildRecord_built hrecord)
  | crashed _ _ hcurrent => exact fun record hrecord => hst record (hcurrent.subset hrecord)
  | crashedLate hrecord _ _ hnext =>
      exact fun other hother =>
        built_append hst (buildRecord_built hrecord) other (hnext.subset hother)

variable {events : List P2mrEvent} {answers : List (Except P2mrFileError P2mrAnswer)}

theorem StoreRun.grows (h : StoreRun C S json events answers st st')
    (hcrash : ∀ e, .error e ∈ answers → ¬ Crashed e) : st.2 <+: st'.2 := by
  induction h with
  | nil => exact List.prefix_rfl
  | cons hstep _ ih =>
      have hfirst := hstep.grows fun e he => hcrash e (he ▸ List.mem_cons_self)
      exact hfirst.trans (ih fun e he => hcrash e (List.mem_cons_of_mem _ he))

theorem StoreRun.built (h : StoreRun C S json events answers st st')
    (hst : ∀ record ∈ st.2, Built C S record) : ∀ record ∈ st'.2, Built C S record := by
  induction h with
  | nil => exact hst
  | cons hstep _ ih => exact ih (hstep.built hst)

end

/-! ## Calls -/

/-- A state of the list that the file agrees with after the answer. -/
def Refines (C : Crypto) (S : Pqc.Signers) (json : P2mrJson) (faults : Set (FileFault UInt8))
    (call : P2mrCall) (st : P2mrStore × P2mrStore) (answer : Except P2mrFileError P2mrAnswer)
    (d : FileSystem P2mrPath UInt8) : Prop :=
  ∃ st', StoreStep C S json faults call answer st st' ∧ Holds json st'.1 st'.2 d

theorem Fails.refines {call : P2mrCall} {source : FileError} (h : Fails json faults kept current source d) :
    Refines C S json faults call (kept, current) (.error (.read source)) d := by
  cases h with
  | io blamed holds => exact ⟨_, .failed (.read blamed), holds⟩
  | crashed blamed keeps left holds => exact ⟨_, .crashed blamed keeps left, holds⟩

theorem FailsLate.refines {scheme : P2mrScheme} {entropy : Bytes} {record : P2mrAddressRecord}
    {source : FileError} (h : FailsLate json faults kept current (current ++ [record]) source d)
    (hrecord : buildRecord C S scheme entropy = .ok record) :
    Refines C S json faults (.create scheme (some entropy)) (kept, current) (.error (.write source)) d := by
  cases h with
  | io blamed holds =>
      rcases holds with holds | holds
      · exact ⟨_, .failed (.write hrecord blamed), holds⟩
      · exact ⟨_, .failedLate hrecord blamed, holds⟩
  | crashed blamed keeps left holds => exact ⟨_, .crashedLate hrecord blamed keeps left, holds⟩

theorem create_refines (lawful : json.Lawful) (h : Holds json kept current fs) (scheme : P2mrScheme)
    (entropy : Option Bytes) :
    Spec faults (create C S json scheme entropy) fs
      (fun record => Refines C S json faults (.create scheme entropy) (kept, current) (.ok (.created record)))
      fun e => Refines C S json faults (.create scheme entropy) (kept, current) (.error e) := by
  cases entropy with
  | none => exact .fail ⟨_, .failed .entropy, h⟩
  | some entropy =>
      unfold create
      dsimp only
      cases hrecord : buildRecord C S scheme entropy with
      | error source => exact .fail ⟨_, .failed (.store hrecord), h⟩
      | ok record =>
          apply Spec.bind
          apply Spec.pure
          apply Spec.bind
          apply (readFile_spec lawful h).mono
          · rintro file _ ⟨rfl, rfl⟩
            apply Spec.bind
            rw [writeFile]
            cases hcontents : json.toStringPretty ⟨currentVersion, file.addresses ++ [record]⟩ with
            | none => exact .fail ⟨_, .failed (.serialize hrecord hcontents), h⟩
            | some contents =>
                apply Spec.mapError
                apply (replaceFile_spec h (List.prefix_append _ _) hcontents).mono
                · intro _ d hd
                  exact .pure ⟨_, .created hrecord, hd⟩
                · intro source d hd
                  exact hd.refines hrecord
          · rintro e d ⟨source, rfl, hd⟩
            exact hd.refines

theorem getBySpk_refines (lawful : json.Lawful) (h : Holds json kept current fs) (spk : Script) :
    Spec faults (getBySpk json spk) fs
      (fun record => Refines C S json faults (.getBySpk spk) (kept, current) (.ok (.found record)))
      fun e => Refines C S json faults (.getBySpk spk) (kept, current) (.error e) := by
  apply Spec.bind
  apply (readFile_spec lawful h).mono
  · rintro file _ ⟨rfl, rfl⟩
    exact .pure ⟨_, .found, h⟩
  · rintro e d ⟨source, rfl, hd⟩
    exact hd.refines

theorem program_refines (lawful : json.Lawful) (h : Holds json kept current fs) (call : P2mrCall) :
    Spec faults (call.program C S json) fs
      (fun answer => Refines C S json faults call (kept, current) (.ok answer))
      fun e => Refines C S json faults call (kept, current) (.error e) := by
  cases call with
  | create scheme entropy =>
      apply Spec.bind
      apply (create_refines lawful h scheme entropy).mono
      · exact fun _ _ hd => .pure hd
      · exact fun _ _ hd => hd
  | list =>
      apply Spec.bind
      apply Spec.bind
      apply (readFile_spec lawful h).mono
      · rintro file _ ⟨rfl, rfl⟩
        exact .pure (.pure ⟨_, .listed, h⟩)
      · rintro e d ⟨source, rfl, hd⟩
        exact hd.refines
  | getBySpk spk =>
      apply Spec.bind
      apply (getBySpk_refines lawful h spk).mono
      · exact fun _ _ hd => .pure hd
      · exact fun _ _ hd => hd

/-! ## Runs -/

theorem run_refines (lawful : json.Lawful) (events : List P2mrEvent) (h : Holds json kept current fs) :
    ∃ st, StoreRun C S json events (run C S json events fs).1 (kept, current) st ∧
      Holds json st.1 st.2 (run C S json events fs).2 := by
  induction events generalizing kept current fs with
  | nil => exact ⟨_, .nil, h⟩
  | cons event events ih =>
      have hcall : Spec (Set.range event.faults) (event.call.program C S json) fs _ _ :=
        program_refines lawful h event.call
      have hprogram := hcall ⟨fs, event.faults⟩ rfl Set.mem_range_self
      have hstep : Refines C S json (Set.range event.faults) event.call (kept, current)
          (event.call.program C S json ⟨fs, event.faults⟩).1
          (event.call.program C S json ⟨fs, event.faults⟩).2.fs := by
        cases hanswer : (event.call.program C S json ⟨fs, event.faults⟩).1 with
        | ok answer => exact (hprogram.ok (Program.eq_of_fst hanswer)).1
        | error e => exact (hprogram.error (Program.eq_of_fst hanswer)).1
      obtain ⟨⟨kept', current'⟩, hstep, hholds⟩ := hstep
      obtain ⟨st, hrun, hend⟩ := ih hholds
      exact ⟨st, .cons hstep hrun, hend⟩

theorem readFile_ok (lawful : json.Lawful) {contents : Option Bytes} {store : P2mrStore}
    (hwritten : Written json store contents) (hread : fs.read .path = contents) :
    ∃ file, readFile json ⟨fs, fun _ => .none⟩ = (.ok file, ⟨fs, fun _ => .none⟩) ∧
      file.addresses = store := by
  have hbind : ∀ (r : Except FileError Bytes) (f : Except FileError Bytes → P2mrM P2mrFile),
      Machine.readFile P2mrPath.path ⟨fs, fun _ => .none⟩ = (r, ⟨fs, fun _ => .none⟩) →
      (Program.attempt (Machine.readFile P2mrPath.path) >>= f) ⟨fs, fun _ => .none⟩ =
        f r ⟨fs, fun _ => .none⟩ := by
    intro r f hr
    rw [Program.bind_apply, Program.attempt, hr]
  subst hread
  generalize hcontents : fs.read .path = contents at hwritten
  cases hwritten with
  | missing =>
      refine ⟨_, hbind (.error .notFound) _ ?_, rfl⟩
      rw [Machine.readFile, Machine.operation]
      dsimp only
      rw [hcontents]
      rfl
  | file hstring =>
      rename_i bytes
      have hfile : Machine.readFile P2mrPath.path ⟨fs, fun _ => .none⟩ =
          (.ok bytes, ⟨fs, fun _ => .none⟩) := by
        rw [Machine.readFile, Machine.operation]
        dsimp only
        rw [hcontents]
        rfl
      refine ⟨⟨currentVersion, store⟩, (hbind (.ok bytes) _ hfile).trans ?_, rfl⟩
      dsimp only
      rw [if_pos (lawful.isUtf8 _ _ hstring), lawful.fromStr _ _ hstring]
      rfl

theorem list_ok (lawful : json.Lawful) {store : P2mrStore} (h : Written json store (fs.read .path)) :
    (list json ⟨fs, fun _ => .none⟩).1 = .ok store := by
  obtain ⟨file, hfile, rfl⟩ := readFile_ok lawful h rfl
  rw [list, Program.bind_apply, hfile]
  rfl

theorem getBySpk_ok (lawful : json.Lawful) {store : P2mrStore} (h : Written json store (fs.read .path))
    (spk : Script) : (getBySpk json spk ⟨fs, fun _ => .none⟩).1 = .ok (store.getBySpk spk) := by
  obtain ⟨file, hfile, rfl⟩ := readFile_ok lawful h rfl
  rw [getBySpk, Program.bind_apply, hfile]
  rfl

/-- Whatever fails, the calls answer as a list of addresses does, which only a crash makes shorter. -/
theorem p2mrFile_refines (lawful : json.Lawful) (events : List P2mrEvent) :
    ∃ kept current, StoreRun C S json events (run C S json events .empty).1 ([], []) (kept, current) ∧
      kept <+: current ∧
      (list json ⟨(run C S json events .empty).2, fun _ => .none⟩).1 = .ok current ∧
      ∀ version garbage, ∃ store, kept <+: store ∧ store <+: current ∧
        (list json ⟨(run C S json events .empty).2.crash version garbage, fun _ => .none⟩).1 = .ok store := by
  obtain ⟨⟨kept, current⟩, hrun, hholds⟩ := run_refines lawful events Holds.empty
  refine ⟨kept, current, hrun, hholds.grown, list_ok lawful hholds.now, fun version garbage => ?_⟩
  obtain ⟨store, hkept, hcurrent, hcrash⟩ :=
    Holds.of_settled (hholds.sound.crash version garbage) rfl
  exact ⟨store, hkept, hcurrent, list_ok lawful hcrash.now⟩

/-- The key of an address that has been handed out is found, as long as the machine does not crash. -/
theorem createdAddress_found (lawful : json.Lawful) (before after : List P2mrEvent) (scheme : P2mrScheme)
    (entropy : Option Bytes) (faults : Nat → FileFault UInt8) (record : P2mrAddressRecord)
    (s : Machine P2mrPath UInt8)
    (hcreate : create C S json scheme entropy ⟨(run C S json before .empty).2, faults⟩ = (.ok record, s))
    (hcrash : ∀ e, .error e ∈ (run C S json after s.fs).1 → ¬ Crashed e) :
    ∃ found, Built C S found ∧ found.scriptPubkey = record.scriptPubkey ∧
      (getBySpk json record.scriptPubkey ⟨(run C S json after s.fs).2, fun _ => .none⟩).1 =
        .ok (some found) := by
  obtain ⟨⟨kept, current⟩, hbefore, hholds⟩ :=
    run_refines (C := C) (S := S) lawful before Holds.empty
  have hbuilt := hbefore.built (by rintro _ ⟨⟩)
  obtain ⟨⟨⟨kept', current'⟩, hstep, hcreated⟩, -⟩ :=
    (create_refines lawful hholds scheme entropy ⟨_, faults⟩ rfl Set.mem_range_self).ok hcreate
  obtain ⟨⟨kept'', current''⟩, hafter, hend⟩ :=
    run_refines (C := C) (S := S) lawful after hcreated
  have hmem : record ∈ current'' := by
    apply (hafter.grows hcrash).subset
    cases hstep with
    | created hrecord => exact List.mem_append_right _ List.mem_cons_self
  have hfound : (P2mrStore.getBySpk current'' record.scriptPubkey).isSome := by
    apply List.find?_isSome.mpr
    exact ⟨record, hmem, decide_eq_true rfl⟩
  obtain ⟨found, hfound⟩ := Option.isSome_iff_exists.mp hfound
  rw [P2mrStore.getBySpk] at hfound
  have hspk : decide (found.scriptPubkey = record.scriptPubkey) = true :=
    List.find?_some (p := fun other : P2mrAddressRecord => decide (other.scriptPubkey = record.scriptPubkey)) hfound
  refine ⟨found, ?_, of_decide_eq_true hspk, hfound ▸ getBySpk_ok lawful hend.now _⟩
  exact hafter.built (hstep.built hbuilt) found (List.mem_of_find?_eq_some hfound)

/-! The file is written as a list of strings; the machine has crashed before the address is created. -/

def writeString (bytes : Bytes) : Bytes := bytes.flatMap (fun byte => [1, byte]) ++ [0]

def readStrings : Bytes → List Bytes
  | 1 :: byte :: rest =>
      match readStrings rest with
      | [] => []
      | string :: strings => (byte :: string) :: strings
  | 0 :: rest => [] :: readStrings rest
  | _ => []

theorem readStrings_writeString (bytes rest : Bytes) :
    readStrings (writeString bytes ++ rest) = bytes :: readStrings rest := by
  induction bytes with
  | nil => rfl
  | cons byte bytes ih =>
      change (match readStrings (writeString bytes ++ rest) with
        | [] => []
        | string :: strings => (byte :: string) :: strings) = _
      rw [ih]

theorem readStrings_flatMap (strings : List Bytes) : readStrings (strings.flatMap writeString) = strings := by
  induction strings with
  | nil => rfl
  | cons string strings ih => rw [List.flatMap_cons, readStrings_writeString, ih]

def schemeByte : P2mrScheme → UInt8
  | .schnorr => 0
  | .mldsa => 1
  | .slh => 2
  | .hybridEcSlh => 3

def ofSchemeByte (byte : UInt8) : Option P2mrScheme := [.schnorr, .mldsa, .slh, .hybridEcSlh][byte.toNat]?

def fields (record : P2mrAddressRecord) : List Bytes :=
  [[schemeByte record.scheme], record.entropy, record.leafScript, record.merkleRoot, record.scriptPubkey]

def ofFields : List Bytes → Option P2mrStore
  | [] => some []
  | [byte] :: entropy :: leafScript :: merkleRoot :: scriptPubkey :: rest => do
      let scheme ← ofSchemeByte byte
      let store ← ofFields rest
      some (⟨scheme, entropy, leafScript, merkleRoot, scriptPubkey⟩ :: store)
  | _ => none

theorem ofFields_fields (store : P2mrStore) : ofFields (store.flatMap fields) = some store := by
  induction store with
  | nil => rfl
  | cons record store ih =>
      rw [List.flatMap_cons, fields]
      change (ofSchemeByte (schemeByte record.scheme)).bind (fun scheme =>
        (ofFields (store.flatMap fields)).bind fun store => _) = _
      rw [ih]
      cases record with
      | mk scheme _ _ _ _ => cases scheme <;> rfl

def sampleJson : P2mrJson where
  isUtf8 _ := true
  toStringPretty file :=
    some ((List.replicate file.version 0 :: file.addresses.flatMap fields).flatMap writeString)
  fromStr contents :=
    match readStrings contents with
    | [] => none
    | version :: strings => (ofFields strings).map (⟨version.length, ·⟩)

theorem sampleJson_lawful : sampleJson.Lawful where
  isUtf8 _ _ _ := rfl
  fromStr file contents h := by
    cases h
    rw [sampleJson]
    dsimp only
    rw [readStrings_flatMap]
    dsimp only
    rw [ofFields_fields, List.length_replicate]
    rfl

/-- The machine crashes when the addresses are listed. -/
def stoppedList : P2mrEvent := ⟨.list, fun _ => .crash 0 0 fun _ => [255]⟩

/-- An address is made, and the machine crashes afterwards. -/
def stoppedEvents : List P2mrEvent := [⟨.create .mldsa (some mldsaEntropy), fun _ => .none⟩, stoppedList]

theorem stoppedEvents_refines :
    let fs := (run .sample sampleSigners sampleJson stoppedEvents .empty).2
    ∃ kept current, StoreRun .sample sampleSigners sampleJson stoppedEvents
        (run .sample sampleSigners sampleJson stoppedEvents .empty).1 ([], []) (kept, current) ∧
      kept <+: current ∧ (list sampleJson ⟨fs, fun _ => .none⟩).1 = .ok current ∧
      ∀ version garbage, ∃ store, kept <+: store ∧ store <+: current ∧
        (list sampleJson ⟨fs.crash version garbage, fun _ => .none⟩).1 = .ok store :=
  p2mrFile_refines sampleJson_lawful stoppedEvents

def mldsaMachine : Machine P2mrPath UInt8 :=
  (create .sample sampleSigners sampleJson .mldsa (some mldsaEntropy)
    ⟨(run .sample sampleSigners sampleJson [stoppedList] .empty).2, fun _ => .none⟩).2

theorem mldsaRecord_created :
    create .sample sampleSigners sampleJson .mldsa (some mldsaEntropy)
      ⟨(run .sample sampleSigners sampleJson [stoppedList] .empty).2, fun _ => .none⟩ =
        (.ok mldsaRecord, mldsaMachine) := by
  have houtput : mkOutput .sample sampleSigners .mldsa mldsaEntropy =
      .ok (mldsaPrevout.scriptPubkey, mldsaLeaf) := mldsa_output
  have hrecord : buildRecord .sample sampleSigners .mldsa mldsaEntropy = .ok mldsaRecord := by
    rw [buildRecord, houtput]
    rfl
  apply Program.eq_of_fst
  rw [create, hrecord]
  rfl

/-- Listing the addresses fails. -/
def failedList : P2mrEvent := ⟨.list, fun _ => .fails 0⟩

theorem mldsaAddress_found : ∃ found, Built .sample sampleSigners found ∧
    found.scriptPubkey = mldsaRecord.scriptPubkey ∧
    (getBySpk sampleJson mldsaRecord.scriptPubkey
      ⟨(run .sample sampleSigners sampleJson [failedList] mldsaMachine.fs).2, fun _ => .none⟩).1 =
        .ok (some found) := by
  have hanswers : (run .sample sampleSigners sampleJson [failedList] mldsaMachine.fs).1 =
      [.error (.read .io)] := rfl
  refine createdAddress_found sampleJson_lawful [stoppedList] [failedList] .mldsa (some mldsaEntropy) _
    mldsaRecord mldsaMachine mldsaRecord_created fun e he => ?_
  rw [hanswers] at he
  obtain rfl := Except.error.inj (List.mem_singleton.mp he)
  rintro ⟨⟩

end P2mrFile

end Bip360Enforcer.Wallet
