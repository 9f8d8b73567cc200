import Bip360Enforcer.Wallet.Lemmas.SeedStore
import Mathlib.Logic.Equiv.List

/-!
# The seed outlives what goes wrong
-/

namespace Bip360Enforcer.Wallet

open FileSystem (Sound)
open Program (wp)

variable {μ : Type} {crates : SeedCrates μ} {st : WalletState μ}

/-! ## One event -/

/-- An unlocked wallet has the mnemonic that is stored. -/
def Unlocked (crates : SeedCrates μ) (st : WalletState μ) : Prop :=
  ∀ mnemonic, st.bitcoinWallet = some mnemonic → ∃ seedFile password,
    st.disk.fs.read .path = some (crates.serialize seedFile) ∧ Opens crates seedFile.seed password mnemonic

theorem Unlocked.of_locked (h : st.bitcoinWallet = none) : Unlocked crates st := by
  intro mnemonic hsome
  rw [h] at hsome
  cases hsome

theorem runEvent_complete (lawful : crates.Lawful) (event : WalletEvent μ)
    (h : st.disk.fs.Sound .tmpPath .path (Complete crates)) :
    wp (runEvent crates event) (fun _ t => t.disk.fs.Sound .tmpPath .path (Complete crates))
      (fun _ t => t.disk.fs.Sound .tmpPath .path (Complete crates)) st := by
  obtain ⟨stored, hstored⟩ := h.read.stored
  rcases event with ⟨⟨given, password⟩ | password | _, context, faults⟩
  · apply runEvent_wp (createNewWallet_wp (st.withFaults faults) lawful h given password)
    · rintro t ⟨seed, mnemonic, birthdayHeight, -, hopens, -, hsound⟩
      exact hsound.mono fun c hc => .inr ⟨_, password, mnemonic, rfl, hopens, hc⟩
    · exact fun _ _ _ ht => ht.1
    · exact fun _ ht => ht.1
  · apply runEvent_wp (unlockExistingWallet_wp (st.withFaults faults) lawful h hstored password)
    · exact fun t ht => ht.1 ▸ h
    · rintro _ t - (rfl | ht)
      · exact h
      · exact ht.1
    · rintro t (rfl | ht)
      · exact h
      · exact ht.1
  · apply runEvent_wp (newWalletInner_wp (st.withFaults faults) lawful h hstored)
    · exact fun t ht => ht.1 ▸ h
    · exact fun _ _ _ ht => ht.1
    · exact fun _ ht => ht.1

theorem Unlocked.locked (h : Unlocked crates st) (hread : st.disk.fs.read .path = none) :
    st.bitcoinWallet = none := by
  cases hwallet : st.bitcoinWallet with
  | none => rfl
  | some mnemonic =>
      obtain ⟨seedFile, _, hsome, _⟩ := h mnemonic hwallet
      rw [hread] at hsome
      cases hsome

theorem Unlocked.of_same {t : WalletState μ} (h : Unlocked crates st)
    (hwallet : t.bitcoinWallet = st.bitcoinWallet) (hfs : t.disk.fs = st.disk.fs) : Unlocked crates t := by
  intro mnemonic hsome
  rw [hfs]
  exact h mnemonic (hwallet ▸ hsome)

theorem runEvent_unlocked (lawful : crates.Lawful) (event : WalletEvent μ) (hchecks : event.Checks)
    (h : st.disk.fs.Sound .tmpPath .path (Complete crates)) (hunlocked : Unlocked crates st) :
    wp (runEvent crates event) (fun _ t => Unlocked crates t) (fun _ t => Unlocked crates t) st := by
  obtain ⟨stored, hstored⟩ := h.read.stored
  rcases event with ⟨⟨given, password⟩ | password | _, context, faults⟩
  · by_cases hread : st.disk.fs.read .path = none
    · have hlocked := hunlocked.locked hread
      apply runEvent_wp (createNewWallet_wp (st.withFaults faults) lawful h given password)
      · rintro t ⟨seed, mnemonic, birthdayHeight, -, hopens, hwallet, hsound⟩ other hsome
        rw [hwallet] at hsome
        cases hsome
        exact ⟨_, password, hsound.read, hopens⟩
      · exact fun _ _ _ ht => .of_locked (ht.2.trans hlocked)
      · exact fun _ _ => .of_locked rfl
    · apply runEvent_wp (createNewWallet_present (st.withFaults faults) h hread
        (hchecks given password rfl) given password)
      · exact fun _ ht => ht.elim
      · rintro e t hne ⟨hwallet, hfs | hcrashed⟩
        · exact hunlocked.of_same hwallet hfs
        · exact absurd hcrashed.1 hne
      · exact fun _ _ => .of_locked rfl
  · apply runEvent_wp (unlockExistingWallet_wp (st.withFaults faults) lawful h hstored password)
    · rintro t ⟨hfs, seedFile, mnemonic, rfl, hopens, hwallet⟩ other hsome
      rw [hwallet] at hsome
      cases hsome
      exact ⟨seedFile, some password, hfs ▸ hstored, hopens⟩
    · rintro _ t - (rfl | ht)
      · exact hunlocked.of_same rfl rfl
      · exact .of_locked ht.2
    · exact fun _ _ => .of_locked rfl
  · apply runEvent_wp (newWalletInner_wp (st.withFaults faults) lawful h hstored)
    · rintro t ⟨hfs, hwallet⟩ mnemonic hsome
      obtain ⟨seedFile, rfl, hopens⟩ := hwallet mnemonic hsome
      exact ⟨seedFile, none, hfs ▸ hstored, hopens⟩
    · exact fun _ _ _ ht => .of_locked ht.2
    · exact fun _ _ => .of_locked rfl

/-- A seed that is stored stays, and no other one is created. -/
theorem runEvent_durable (lawful : crates.Lawful) (event : WalletEvent μ) (hchecks : event.Checks)
    {seedFile : SeedFile} (h : st.disk.fs.Sound .tmpPath .path (· = some (crates.serialize seedFile))) :
    wp (runEvent crates event)
      (fun _ t => t.disk.fs.Sound .tmpPath .path (· = some (crates.serialize seedFile)) ∧
        ∀ mnemonic password, event.call ≠ .createNewWallet mnemonic password)
      (fun _ t => t.disk.fs.Sound .tmpPath .path (· = some (crates.serialize seedFile))) st := by
  have hstored : st.disk.fs.read .path = (some seedFile).map crates.serialize := h.read
  rcases event with ⟨⟨given, password⟩ | password | _, context, faults⟩
  · have hpresent : st.disk.fs.read .path ≠ none := by
      rw [hstored]
      intro hnone
      cases hnone
    apply runEvent_wp (createNewWallet_present (st.withFaults faults) h hpresent
      (hchecks given password rfl) given password)
    · exact fun _ ht => ht.elim
    · rintro e t - ⟨-, hfs | hcrashed⟩
      · exact hfs ▸ h
      · exact hcrashed.2
    · rintro t ⟨-, hfs | hcrashed⟩
      · exact hfs ▸ h
      · exact hcrashed.2
  · apply runEvent_wp (unlockExistingWallet_wp (st.withFaults faults) lawful h hstored password)
    · exact fun t ht => ⟨ht.1 ▸ h, fun _ _ hcall => by cases hcall⟩
    · rintro _ t - (rfl | ht)
      · exact h
      · exact ht.1
    · rintro t (rfl | ht)
      · exact h
      · exact ht.1
  · apply runEvent_wp (newWalletInner_wp (st.withFaults faults) lawful h hstored)
    · exact fun t ht => ⟨ht.1 ▸ h, fun _ _ hcall => by cases hcall⟩
    · exact fun _ _ _ ht => ht.1
    · exact fun _ ht => ht.1

/-! ## Reopening -/

theorem readSeedFile_ok (lawful : crates.Lawful) {s : Machine SeedPath UInt8} {seedFile : SeedFile}
    (hfault : s.faults 0 = .none) (hread : s.fs.read .path = some (crates.serialize seedFile)) :
    readSeedFile crates s = (.ok (some seedFile), s.moveTo s.fs) := by
  have hfile : Machine.readFile SeedPath.path s = (.ok (crates.serialize seedFile), s.moveTo s.fs) := by
    rw [Machine.readFile, Machine.operation, hfault]
    dsimp only
    rw [hread]
  rw [readSeedFile, Program.bind_apply, Program.attempt, hfile]
  dsimp only
  rw [lawful.deserialize]
  rfl

theorem readMnemonic_ok (lawful : crates.Lawful) {s : Machine SeedPath UInt8} {seedFile : SeedFile}
    {read : Option (μ ⊕ EncryptedMnemonic)} (hfault : s.faults 0 = .none)
    (hread : s.fs.read .path = some (crates.serialize seedFile))
    (hreads : ReadsAs crates (some seedFile) read) : readMnemonic crates s = (.ok read, s.moveTo s.fs) := by
  rw [readMnemonic, Program.bind_apply, readSeedFile_ok lawful hfault hread]
  dsimp only [Option.map_some]
  cases hreads with
  | plaintext hseed hparse =>
      rw [hseed]
      dsimp only
      rw [hparse]
      rfl
  | encrypted hseed =>
      rw [hseed]
      rfl

/-- The state of a wallet when nothing goes wrong from here on. -/
def WalletState.faultless (fs : FileSystem SeedPath UInt8) (wallet : Option μ) : WalletState μ :=
  ⟨⟨fs, fun _ => .none⟩, wallet⟩

section

variable {fs : FileSystem SeedPath UInt8} {context : CallContext μ} {seedFile : SeedFile} {mnemonic : μ}

theorem onDisk_readMnemonic (lawful : crates.Lawful) {α : Type} {read : Option (μ ⊕ EncryptedMnemonic)}
    (hread : fs.read .path = some (crates.serialize seedFile))
    (hreads : ReadsAs crates (some seedFile) read) (wallet : Option μ)
    (f : Option (μ ⊕ EncryptedMnemonic) → WalletM μ α) :
    (onDisk (readMnemonic crates) >>= f) (.faultless fs wallet) = f read (.faultless fs wallet) := by
  have hdisk : onDisk (readMnemonic crates) (.faultless fs wallet) = (.ok read, .faultless fs wallet) := by
    rw [onDisk, Program.focus]
    exact congrArg (fun r => (r.1, WalletState.mk r.2 wallet))
      (readMnemonic_ok lawful (s := ⟨fs, fun _ => .none⟩) rfl hread hreads)
  rw [Program.bind_apply, hdisk]

theorem initializeWalletFromMnemonic_ok (hinit : context.initializes mnemonic = true) (wallet : Option μ) :
    initializeWalletFromMnemonic context mnemonic (.faultless fs wallet) =
      (.ok (), .faultless fs (some mnemonic)) := by
  rw [initializeWalletFromMnemonic, if_pos hinit]
  rfl

theorem newWalletInner_plaintext (lawful : crates.Lawful)
    (hread : fs.read .path = some (crates.serialize seedFile))
    (hreads : ReadsAs crates (some seedFile) (some (.inl mnemonic)))
    (hinit : context.initializes mnemonic = true) (wallet : Option μ) :
    newWalletInner crates context (.faultless fs wallet) = (.ok (), .faultless fs (some mnemonic)) :=
  (onDisk_readMnemonic lawful hread hreads none _).trans (initializeWalletFromMnemonic_ok hinit none)

theorem newWalletInner_encrypted (lawful : crates.Lawful) {encrypted : EncryptedMnemonic}
    (hread : fs.read .path = some (crates.serialize seedFile))
    (hreads : ReadsAs crates (some seedFile) (some (.inr encrypted))) (wallet : Option μ) :
    newWalletInner crates context (.faultless fs wallet) = (.ok (), .faultless fs none) :=
  onDisk_readMnemonic lawful hread hreads none _

theorem unlockExistingWallet_ok (lawful : crates.Lawful) {encrypted : EncryptedMnemonic} {password : Bytes}
    (hread : fs.read .path = some (crates.serialize seedFile))
    (hreads : ReadsAs crates (some seedFile) (some (.inr encrypted)))
    (hdecrypt : encrypted.decrypt crates password = some mnemonic)
    (hinit : context.initializes mnemonic = true) :
    unlockExistingWallet crates context password (.faultless fs none) =
      (.ok (), .faultless fs (some mnemonic)) := by
  apply (onDisk_readMnemonic lawful hread hreads none _).trans
  dsimp only
  rw [hdecrypt]
  exact initializeWalletFromMnemonic_ok hinit none

/-- What a call does when nothing goes wrong. -/
theorem runEvent_ok {call : WalletCall μ} {wallet : Option μ}
    (h : call.program crates context (.faultless st.disk.fs st.bitcoinWallet) =
      (.ok (), .faultless st.disk.fs wallet)) :
    (runEvent crates ⟨call, context, fun _ => .none⟩ st).2 = .faultless st.disk.fs wallet :=
  congrArg (fun r : Except WalletError Unit × WalletState μ => r.2.after r.1) h

theorem reopen_unlocks (lawful : crates.Lawful) {password : Option Bytes}
    (hread : st.disk.fs.read .path = some (crates.serialize seedFile))
    (hopens : Opens crates seedFile.seed password mnemonic) (hinit : context.initializes mnemonic = true) :
    (runEvents crates (reopen context password) st).bitcoinWallet = some mnemonic := by
  generalize hseed : seedFile.seed = seed at hopens
  cases hopens with
  | plaintext hparse =>
      have hstart : (runEvent crates ⟨.newWalletInner, context, fun _ => .none⟩ st).2 = _ :=
        runEvent_ok (newWalletInner_plaintext lawful hread (.plaintext hseed hparse) hinit st.bitcoinWallet)
      exact congrArg WalletState.bitcoinWallet hstart
  | encrypted hdecrypt =>
      rename_i encrypted password
      have hstart : (runEvent crates ⟨.newWalletInner, context, fun _ => .none⟩ st).2 = _ :=
        runEvent_ok (newWalletInner_encrypted lawful hread (.encrypted hseed) st.bitcoinWallet)
      have hunlock : (runEvent crates ⟨.unlockExistingWallet password, context, fun _ => .none⟩
          (.faultless st.disk.fs none)).2 = _ :=
        runEvent_ok (unlockExistingWallet_ok lawful hread (.encrypted hseed) hdecrypt hinit)
      rw [reopen, runEvents, hstart]
      exact congrArg WalletState.bitcoinWallet hunlock

end

/-! ## Runs -/

theorem runEvents_append (before after : List (WalletEvent μ)) (st : WalletState μ) :
    runEvents crates (before ++ after) st = runEvents crates after (runEvents crates before st) := by
  induction before generalizing st with
  | nil => rfl
  | cons event before ih => exact ih _

theorem runEvents_complete (lawful : crates.Lawful) (events : List (WalletEvent μ))
    (h : st.disk.fs.Sound .tmpPath .path (Complete crates)) :
    (runEvents crates events st).disk.fs.Sound .tmpPath .path (Complete crates) := by
  induction events generalizing st with
  | nil => exact h
  | cons event events ih => exact ih ((runEvent_complete lawful event h).either rfl)

theorem runEvents_unlocked (lawful : crates.Lawful) {events : List (WalletEvent μ)}
    (hchecks : ∀ event ∈ events, event.Checks) (h : st.disk.fs.Sound .tmpPath .path (Complete crates))
    (hunlocked : Unlocked crates st) : Unlocked crates (runEvents crates events st) := by
  induction events generalizing st with
  | nil => exact hunlocked
  | cons event events ih =>
      obtain ⟨hevent, hevents⟩ := List.forall_mem_cons.mp hchecks
      exact ih hevents ((runEvent_complete lawful event h).either rfl)
        ((runEvent_unlocked lawful event hevent h hunlocked).either rfl)

theorem runEvents_durable (lawful : crates.Lawful) {events : List (WalletEvent μ)} {seedFile : SeedFile}
    (hchecks : ∀ event ∈ events, event.Checks)
    (h : st.disk.fs.Sound .tmpPath .path (· = some (crates.serialize seedFile))) :
    (runEvents crates events st).disk.fs.Sound .tmpPath .path (· = some (crates.serialize seedFile)) := by
  induction events generalizing st with
  | nil => exact h
  | cons event events ih =>
      obtain ⟨hevent, hevents⟩ := List.forall_mem_cons.mp hchecks
      have hkept := (runEvent_durable lawful event hevent h).mono (fun _ _ ht => ht.1) fun _ _ ht => ht
      exact ih hevents (hkept.either rfl)

/-- Whatever fails, and however often the machine crashes, the seed file is absent or complete. -/
theorem seedFile_neverTorn (lawful : crates.Lawful) (events : List (WalletEvent μ)) :
    Complete crates ((runEvents crates events .initial).disk.fs.read .path) ∧
      (∀ version garbage,
        Complete crates (((runEvents crates events .initial).disk.fs.crash version garbage).read .path)) ∧
      ((∀ event ∈ events, event.Checks) → Unlocked crates (runEvents crates events .initial)) := by
  have hinitial : (WalletState.initial : WalletState μ).disk.fs.Sound .tmpPath .path (Complete crates) :=
    .empty (.inl rfl)
  have hcomplete := runEvents_complete lawful events hinitial
  refine ⟨hcomplete.read, fun version garbage => (hcomplete.crash version garbage).read, fun hchecks => ?_⟩
  exact runEvents_unlocked lawful hchecks hinitial (.of_locked rfl)

/-! Mnemonics are byte strings, a key is written before what it encrypts, and a file is written as a number. -/

/-- The fields of a seed file. -/
def SeedFile.fields (seedFile : SeedFile) :
    Nat × Nat × Option Nat × (List (Fin 256) ⊕ List (Fin 256) × List (Fin 256) × List (Fin 256)) :=
  (seedFile.version, seedFile.createdAt, seedFile.birthdayHeight,
    match seedFile.seed with
    | .plaintext bytes => .inl (bytes.map UInt8.toFin)
    | .encrypted e => .inr (e.initializationVector.map UInt8.toFin, e.ciphertextMnemonic.map UInt8.toFin,
        e.keySalt.map UInt8.toFin))

def SeedFile.ofFields :
    Nat × Nat × Option Nat × (List (Fin 256) ⊕ List (Fin 256) × List (Fin 256) × List (Fin 256)) → SeedFile
  | (version, createdAt, birthdayHeight, .inl bytes) =>
      ⟨version, createdAt, birthdayHeight, .plaintext (bytes.map UInt8.ofFin)⟩
  | (version, createdAt, birthdayHeight, .inr (vector, ciphertext, salt)) =>
      ⟨version, createdAt, birthdayHeight, .encrypted
        ⟨vector.map UInt8.ofFin, ciphertext.map UInt8.ofFin, salt.map UInt8.ofFin⟩⟩

theorem SeedFile.ofFields_fields (seedFile : SeedFile) : ofFields seedFile.fields = seedFile := by
  have hbytes : ∀ bytes : Bytes, (bytes.map UInt8.toFin).map UInt8.ofFin = bytes := by
    intro bytes
    rw [List.map_map]
    exact List.map_id bytes
  rcases seedFile with ⟨version, createdAt, birthdayHeight, bytes | ⟨vector, ciphertext, salt⟩⟩
  · rw [fields, ofFields, hbytes]
  · rw [fields, ofFields, hbytes, hbytes, hbytes]

def SeedCrates.sample : SeedCrates Bytes where
  toString := id
  parseInNormalized := some
  fromStr := some
  hashPassword password salt := some (password ++ salt)
  encrypt key _ plaintext := some (key ++ plaintext)
  decrypt key _ ciphertext := if ciphertext.take key.length = key then some (ciphertext.drop key.length) else none
  serialize seedFile := List.replicate (Encodable.encode seedFile.fields) 0
  deserialize contents := (Encodable.decode contents.length).map SeedFile.ofFields

theorem SeedCrates.sample_lawful : SeedCrates.sample.Lawful where
  parse _ := rfl
  fromStr _ := rfl
  decrypt key nonce plaintext ciphertext h := by
    cases h
    change (if (key ++ plaintext).take key.length = key then _ else none) = _
    rw [List.take_left, if_pos rfl, List.drop_left]
  deserialize seedFile := by
    rw [SeedCrates.sample]
    dsimp only
    rw [List.length_replicate, Encodable.encodek, Option.map_some, SeedFile.ofFields_fields]

def sampleContext : CallContext Bytes := ⟨some [1], [7], [8], 0, some 5, fun _ => true⟩

/-- The machine crashes at the given operation. -/
def crashAt (operation : Nat) : Nat → FileFault UInt8 := fun n =>
  if n = operation then .crash 1 0 fun _ => [255] else .none

theorem crashAt_ne (operation n extent : Nat) : crashAt operation n ≠ .fails extent := by
  intro h
  rw [crashAt] at h
  split at h
  · cases h
  · cases h

def tornEvents : List (WalletEvent Bytes) :=
  [⟨.createNewWallet none (some [3]), sampleContext, crashAt 2⟩,
    ⟨.createNewWallet none (some [3]), sampleContext, fun _ => .none⟩,
    ⟨.unlockExistingWallet [3], sampleContext, crashAt 0⟩]

theorem tornEvents_complete :
    Complete .sample ((runEvents .sample tornEvents .initial).disk.fs.read .path) ∧
      (∀ version garbage, Complete .sample
        (((runEvents .sample tornEvents .initial).disk.fs.crash version garbage).read .path)) ∧
      Unlocked .sample (runEvents .sample tornEvents .initial) := by
  obtain ⟨hread, hcrash, hunlocked⟩ := seedFile_neverTorn SeedCrates.sample_lawful tornEvents
  refine ⟨hread, hcrash, hunlocked fun event hevent mnemonic password hcall extent hfault => ?_⟩
  rcases List.mem_cons.mp hevent with rfl | hevent
  · exact crashAt_ne 2 0 extent hfault
  · rcases List.mem_cons.mp hevent with rfl | hevent
    · cases hfault
    · obtain rfl := List.mem_singleton.mp hevent
      cases hcall

/-- The wallet of a seed that is stored for good. -/
structure Keeps (crates : SeedCrates μ) (seedFile : SeedFile) (password : Option Bytes) (mnemonic : μ)
    (st : WalletState μ) : Prop where
  stored : st.disk.fs.read .path = some (crates.serialize seedFile)
  afterCrash : ∀ version garbage,
    (st.disk.fs.crash version garbage).read .path = some (crates.serialize seedFile)
  only : ∀ context given password' faults,
    WalletEvent.Checks (⟨.createNewWallet given password', context, faults⟩ : WalletEvent μ) →
      (runEvent crates ⟨.createNewWallet given password', context, faults⟩ st).1 ≠ .ok ()
  birthday : (readBirthdayHeight crates ⟨st.disk.fs, fun _ => .none⟩).1 = .ok seedFile.birthdayHeight
  reopens : ∀ context : CallContext μ, context.initializes mnemonic = true →
    (runEvents crates (reopen context password) st).bitcoinWallet = some mnemonic

theorem Keeps.of_sound (lawful : crates.Lawful) {seedFile : SeedFile} {password : Option Bytes} {mnemonic : μ}
    (hopens : Opens crates seedFile.seed password mnemonic)
    (h : st.disk.fs.Sound .tmpPath .path (· = some (crates.serialize seedFile))) :
    Keeps crates seedFile password mnemonic st where
  stored := h.read
  afterCrash version garbage := (h.crash version garbage).read
  only context given password' faults hchecks hok :=
    (runEvent_durable lawful _ hchecks h).ok (Program.eq_of_fst hok) |>.2 given password' rfl
  birthday := by
    have hread := readSeedFile_ok lawful (s := ⟨st.disk.fs, fun _ => .none⟩) rfl h.read
    rw [readBirthdayHeight, Program.bind_apply, hread]
    rfl
  reopens _ hinit := reopen_unlocks lawful h.read hopens hinit

/-- Once a wallet has been created, its seed is there after every run, and opens with its password. -/
theorem createdSeed_kept (lawful : crates.Lawful) (before after : List (WalletEvent μ))
    (context : CallContext μ) (given : Option μ) (password : Option Bytes) (faults : Nat → FileFault UInt8)
    (hcreated : (runEvent crates ⟨.createNewWallet given password, context, faults⟩
      (runEvents crates before .initial)).1 = .ok ())
    (hchecks : ∀ event ∈ after, event.Checks) :
    ∃ seed mnemonic birthdayHeight, Chosen context given mnemonic birthdayHeight ∧
      Keeps crates ⟨SeedFile.currentVersion, context.now, birthdayHeight, seed⟩ password mnemonic
        (runEvents crates (before ++ ⟨.createNewWallet given password, context, faults⟩ :: after)
          .initial) := by
  have hinitial : (WalletState.initial : WalletState μ).disk.fs.Sound .tmpPath .path (Complete crates) :=
    .empty (.inl rfl)
  have hbefore := runEvents_complete lawful before hinitial
  have hrun := runEvent_wp (@createNewWallet_wp μ crates context
    ((runEvents crates before .initial).withFaults faults) lawful hbefore given password)
    (fun _ ht => ht) (fun _ _ _ _ => trivial) fun _ _ => trivial
  obtain ⟨seed, mnemonic, birthdayHeight, hchosen, hopens, -, hsound⟩ := hrun.ok (Program.eq_of_fst hcreated)
  refine ⟨seed, mnemonic, birthdayHeight, hchosen, .of_sound lawful hopens ?_⟩
  rw [runEvents_append, runEvents]
  exact runEvents_durable lawful hchecks hsound

theorem sampleSeed_kept : ∃ seed mnemonic birthdayHeight,
    Chosen sampleContext none mnemonic birthdayHeight ∧
      Keeps .sample ⟨1, 0, birthdayHeight, seed⟩ (some [3]) mnemonic (runEvents .sample tornEvents .initial) :=
  createdSeed_kept SeedCrates.sample_lawful
    [⟨.createNewWallet none (some [3]), sampleContext, crashAt 2⟩]
    [⟨.unlockExistingWallet [3], sampleContext, crashAt 0⟩] sampleContext none (some [3]) (fun _ => .none)
    rfl fun event hevent mnemonic password hcall => by
      obtain rfl := List.mem_singleton.mp hevent
      cases hcall

end Bip360Enforcer.Wallet
