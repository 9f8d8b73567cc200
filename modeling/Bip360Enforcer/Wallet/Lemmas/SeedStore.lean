import Bip360Enforcer.Library.SafeFile
import Bip360Enforcer.Wallet.SeedStore

/-!
# What the operations on the seed store keep
-/

namespace Bip360Enforcer.Wallet

open FileSystem (Sound)
open Machine
open Program (wp)

variable {μ : Type} {crates : SeedCrates μ} {context : CallContext μ} {fs : FileSystem SeedPath UInt8}
  {faults : Set (FileFault UInt8)} {P Q : Option Bytes → Prop}

/-- What is written can be read, and what is encrypted can be decrypted. -/
structure SeedCrates.Lawful (crates : SeedCrates μ) : Prop where
  parse : ∀ mnemonic, crates.parseInNormalized (crates.toString mnemonic) = some mnemonic
  fromStr : ∀ mnemonic, crates.fromStr (crates.toString mnemonic) = some mnemonic
  decrypt : ∀ key nonce plaintext ciphertext, crates.encrypt key nonce plaintext = some ciphertext →
    crates.decrypt key nonce ciphertext = some plaintext
  deserialize : ∀ seedFile, crates.deserialize (crates.serialize seedFile) = some seedFile

/-! ## Seeds -/

/-- The seed gives the mnemonic back, with the password if there is one. -/
inductive Opens (crates : SeedCrates μ) : StoredSeed → Option Bytes → μ → Prop
  | plaintext {bytes : Bytes} {mnemonic : μ} : crates.parseInNormalized bytes = some mnemonic →
      Opens crates (.plaintext bytes) none mnemonic
  | encrypted {encrypted : EncryptedMnemonic} {password : Bytes} {mnemonic : μ} :
      encrypted.decrypt crates password = some mnemonic →
      Opens crates (.encrypted encrypted) (some password) mnemonic

theorem EncryptedMnemonic.decrypt_encrypt (lawful : crates.Lawful) {mnemonic : μ}
    {password keySalt nonce : Bytes} {encrypted : EncryptedMnemonic}
    (h : encrypt crates mnemonic password keySalt nonce = some encrypted) :
    encrypted.decrypt crates password = some mnemonic := by
  obtain ⟨key, hkey, h⟩ := Option.bind_eq_some_iff.mp h
  obtain ⟨ciphertext, hciphertext, h⟩ := Option.bind_eq_some_iff.mp h
  cases h
  apply Option.bind_eq_some_iff.mpr
  exact ⟨key, hkey, Option.bind_eq_some_iff.mpr
    ⟨_, lawful.decrypt _ _ _ _ hciphertext, lawful.fromStr mnemonic⟩⟩

theorem storedSeed_opens (lawful : crates.Lawful) {mnemonic : μ} {password : Option Bytes}
    {seed : StoredSeed} (h : storedSeed crates context mnemonic password = .ok seed) :
    Opens crates seed password mnemonic := by
  cases password with
  | none =>
      cases h
      exact .plaintext (lawful.parse mnemonic)
  | some password =>
      rw [storedSeed] at h
      cases hencrypt : EncryptedMnemonic.encrypt crates mnemonic password context.keySalt context.nonce with
      | none =>
          rw [hencrypt] at h
          cases h
      | some encrypted =>
          rw [hencrypt] at h
          cases h
          exact .encrypted (EncryptedMnemonic.decrypt_encrypt lawful hencrypt)

/-! ## Reading -/

/-- What reading the mnemonic gives of what is stored. -/
inductive ReadsAs (crates : SeedCrates μ) : Option SeedFile → Option (μ ⊕ EncryptedMnemonic) → Prop
  | none : ReadsAs crates none none
  | plaintext {seedFile : SeedFile} {bytes : Bytes} {mnemonic : μ} : seedFile.seed = .plaintext bytes →
      crates.parseInNormalized bytes = some mnemonic → ReadsAs crates (some seedFile) (some (.inl mnemonic))
  | encrypted {seedFile : SeedFile} {encrypted : EncryptedMnemonic} : seedFile.seed = .encrypted encrypted →
      ReadsAs crates (some seedFile) (some (.inr encrypted))

theorem readSeedFile_spec (lawful : crates.Lawful) (h : fs.Sound .tmpPath .path P) {stored : Option SeedFile}
    (hstored : fs.read .path = stored.map crates.serialize) :
    Spec faults (readSeedFile crates) fs (fun r d => r = stored ∧ d = fs) fun _ d => d.Sound .tmpPath .path P := by
  apply Spec.bind
  apply Spec.attempt
  apply readFile_sound h
  · intro contents hread
    rw [hread] at hstored
    cases stored with
    | none => cases hstored
    | some seedFile =>
        cases hstored
        dsimp only
        rw [lawful.deserialize]
        exact .pure ⟨rfl, rfl⟩
  · intro hread
    rw [hread] at hstored
    cases stored with
    | none => exact .pure ⟨rfl, rfl⟩
    | some seedFile => cases hstored
  · intro e d hd
    cases hd.blamed with
    | io => exact .fail hd.sound
    | crashed => exact .fail hd.sound

theorem readMnemonic_spec (lawful : crates.Lawful) (h : fs.Sound .tmpPath .path P)
    {stored : Option SeedFile} (hstored : fs.read .path = stored.map crates.serialize) :
    Spec faults (readMnemonic crates) fs (fun r d => ReadsAs crates stored r ∧ d = fs)
      fun _ d => d.Sound .tmpPath .path P := by
  apply Spec.bind
  apply (readSeedFile_spec lawful h hstored).mono _ fun _ _ hd => hd
  rintro stored _ ⟨rfl, rfl⟩
  rcases stored with _ | ⟨version, createdAt, birthdayHeight, bytes | encrypted⟩
  · exact .pure ⟨.none, rfl⟩
  · dsimp only [Option.map_some]
    cases hparse : crates.parseInNormalized bytes with
    | none => exact .fail h
    | some mnemonic => exact .pure ⟨.plaintext rfl hparse, rfl⟩
  · exact .pure ⟨.encrypted rfl, rfl⟩

/-! ## Writing -/

theorem writeSeedFile_spec (h : fs.Sound .tmpPath .path P) {seedFile : SeedFile}
    (hPQ : ∀ c, P c ∨ c = some (crates.serialize seedFile) → Q c) :
    Spec faults (writeSeedFile crates seedFile) fs
      (fun _ d => d.Sound .tmpPath .path (· = some (crates.serialize seedFile)))
      fun _ d => d.Sound .tmpPath .path Q := by
  have hfailed : ∀ {fs : FileSystem SeedPath UInt8} (e : FileError) d, Left .tmpPath .path P faults fs e d →
      d.Sound .tmpPath .path Q := fun _ _ hd => hd.sound.mono fun c hc => hPQ c (.inl hc)
  apply Spec.bind
  apply openFile_sound (by decide) h _ hfailed
  intro file opened hopened hdir hcontent _
  apply Spec.bind
  apply writeAll_sound hopened hdir _ hfailed
  have hwritten := hopened.append hdir (crates.serialize seedFile)
  have hcontents : (opened.append file (crates.serialize seedFile)).content file =
      crates.serialize seedFile := by
    change (if file = file then opened.content file ++ _ else _) = _
    rw [if_pos rfl, hcontent, List.nil_append]
  apply Spec.bind
  apply effectful_sound hwritten hwritten.flush rfl _ hfailed
  apply Spec.bind
  have hflushed : ((opened.append file (crates.serialize seedFile)).flush file).flushed file = true := by
    change (decide (file = file) || _) = true
    rw [decide_eq_true rfl, Bool.true_or]
  apply renameFile_sound (by decide) hwritten.flush hdir hflushed _ _ hfailed (fun _ _ hd _ => hd)
    fun _ _ hd _ => hd
  · intro c hc
    apply hPQ c
    rcases hc with hc | hc
    · exact .inl hc
    · exact .inr (hc.trans (congrArg some hcontents))
  · intro renamed hrenamed hread
    apply Spec.bind
    apply effectful_sound hrenamed hrenamed rfl _ fun _ _ hd => hd.sound
    apply effectful_sound hrenamed hrenamed.flushDir rfl _ fun _ _ hd => hd.sound
    exact (hrenamed.flushDir.settled rfl).mono fun c hc => hc.trans (hread.trans (congrArg some hcontents))

/-- A seed is not put in the place of another one, unless it is not found. -/
theorem insertSeed_present {s : Machine SeedPath UInt8} (h : s.fs.Sound .tmpPath .path P)
    (hpresent : s.fs.read .path ≠ none) (hchecks : ∀ extent, s.faults 0 ≠ .fails extent)
    (seed : StoredSeed) (birthdayHeight : Option Nat) (now : Nat) :
    wp (insertSeed crates seed birthdayHeight now) (fun _ _ => False)
      (fun e t => t.fs = s.fs ∨ e = .io .crashed ∧ t.fs.Sound .tmpPath .path P) s := by
  rw [insertSeed, Program.wp_bind, Program.wp_mapError]
  cases hfault : s.faults 0 with
  | none =>
      have hcheck : pathExists SeedPath.path s = (.ok true, s.moveTo s.fs) := by
        rw [pathExists, hfault]
        cases hdir : s.fs.dir .path with
        | none => exact absurd (by rw [FileSystem.read, hdir]; rfl) hpresent
        | some file => rfl
      rw [wp, hcheck]
      exact .inl rfl
  | fails extent => exact absurd hfault (hchecks extent)
  | crash extent version garbage =>
      have hcheck : pathExists SeedPath.path s =
          (.error .crashed, s.moveTo (s.fs.crash version garbage)) := by rw [pathExists, hfault]
      rw [wp, hcheck]
      exact .inr ⟨rfl, h.crash version garbage⟩

theorem insertSeed_spec (h : fs.Sound .tmpPath .path P) {seed : StoredSeed} {birthdayHeight : Option Nat}
    {now : Nat}
    (hPQ : ∀ c, P c ∨
      c = some (crates.serialize ⟨SeedFile.currentVersion, now, birthdayHeight, seed⟩) → Q c) :
    Spec faults (insertSeed crates seed birthdayHeight now) fs
      (fun _ d => d.Sound .tmpPath .path
        (· = some (crates.serialize ⟨SeedFile.currentVersion, now, birthdayHeight, seed⟩)))
      fun _ d => d.Sound .tmpPath .path Q := by
  have hkept := h.mono fun c hc => hPQ c (.inl hc)
  apply Spec.bind
  apply Spec.mapError
  apply pathExists_sound hkept _ fun _ _ hd => hd.sound
  intro present
  cases present with
  | true => exact .fail hkept
  | false => exact .mapError (writeSeedFile_spec h hPQ)

/-! ## The wallet -/

section

variable {st : WalletState μ}

theorem onDisk_wp (st : WalletState μ) {α : Type} {x : SeedM WalletError α} {post : α → FileSystem SeedPath UInt8 → Prop}
    {failed : WalletError → FileSystem SeedPath UInt8 → Prop} (h : Spec Set.univ x st.disk.fs post failed) :
    wp (onDisk x) (fun a t => t.bitcoinWallet = st.bitcoinWallet ∧ post a t.disk.fs)
      (fun e t => t.bitcoinWallet = st.bitcoinWallet ∧ failed e t.disk.fs) st := by
  rw [onDisk, Program.wp_focus]
  exact (h st.disk rfl fun _ => trivial).mono (fun _ _ ht => ⟨rfl, ht.1⟩) fun _ _ ht => ⟨rfl, ht.1⟩

theorem initializeWalletFromMnemonic_wp {mnemonic : μ} {post : Unit → WalletState μ → Prop}
    {failed : WalletError → WalletState μ → Prop} (hpost : post () { st with bitcoinWallet := some mnemonic })
    (hfailed : failed .initFromMnemonic st) :
    wp (initializeWalletFromMnemonic context mnemonic) post failed st := by
  rw [initializeWalletFromMnemonic, Program.wp_ite]
  exact ⟨fun _ => hpost, fun _ => hfailed⟩

theorem newWalletInner_wp (st : WalletState μ) (lawful : crates.Lawful)
    (h : st.disk.fs.Sound .tmpPath .path P)
    {stored : Option SeedFile} (hstored : st.disk.fs.read .path = stored.map crates.serialize) :
    wp (WalletCall.newWalletInner.program crates context)
      (fun _ t => t.disk.fs = st.disk.fs ∧ ∀ mnemonic, t.bitcoinWallet = some mnemonic →
        ∃ seedFile, stored = some seedFile ∧ Opens crates seedFile.seed none mnemonic)
      (fun _ t => t.disk.fs.Sound .tmpPath .path P ∧ t.bitcoinWallet = none) st := by
  rw [WalletCall.program, newWalletInner, Program.wp_bind, Program.wp_modify, Program.wp_bind]
  apply (onDisk_wp { st with bitcoinWallet := none } (readMnemonic_spec lawful h hstored)).mono
  · rintro _ t ⟨hwallet, hreads, hfs⟩
    cases hreads with
    | none => exact ⟨hfs, fun _ hsome => by rw [hwallet] at hsome; cases hsome⟩
    | encrypted hseed => exact ⟨hfs, fun _ hsome => by rw [hwallet] at hsome; cases hsome⟩
    | plaintext hseed hparse =>
        apply initializeWalletFromMnemonic_wp
        · refine ⟨hfs, fun _ hsome => ⟨_, rfl, ?_⟩⟩
          cases hsome
          rw [hseed]
          exact .plaintext hparse
        · exact ⟨hfs ▸ h, hwallet⟩
  · rintro _ t ⟨hwallet, hsound⟩
    exact ⟨hsound, hwallet⟩

theorem unlockExistingWallet_wp (st : WalletState μ) (lawful : crates.Lawful)
    (h : st.disk.fs.Sound .tmpPath .path P)
    {stored : Option SeedFile} (hstored : st.disk.fs.read .path = stored.map crates.serialize)
    (password : Bytes) :
    wp ((WalletCall.unlockExistingWallet password).program crates context)
      (fun _ t => t.disk.fs = st.disk.fs ∧ ∃ seedFile mnemonic, stored = some seedFile ∧
        Opens crates seedFile.seed (some password) mnemonic ∧ t.bitcoinWallet = some mnemonic)
      (fun _ t => t = st ∨ t.disk.fs.Sound .tmpPath .path P ∧ t.bitcoinWallet = none) st := by
  rw [WalletCall.program, unlockExistingWallet, Program.wp_bind, Program.wp_get, Program.wp_ite]
  refine ⟨fun _ => .inl rfl, fun hlocked => ?_⟩
  have hnone : st.bitcoinWallet = none := by
    cases hwallet : st.bitcoinWallet with
    | none => rfl
    | some mnemonic => exact absurd (by rw [hwallet]; rfl) hlocked
  rw [Program.wp_bind]
  apply (onDisk_wp st (readMnemonic_spec lawful h hstored)).mono
  · rintro _ t ⟨hwallet, hreads, hfs⟩
    have hfailed : t.disk.fs.Sound .tmpPath .path P ∧ t.bitcoinWallet = none :=
      ⟨hfs ▸ h, hwallet.trans hnone⟩
    cases hreads with
    | none => exact .inr hfailed
    | plaintext hseed hparse => exact .inr hfailed
    | encrypted hseed =>
        rename_i seedFile encrypted
        dsimp only
        cases hdecrypt : encrypted.decrypt crates password with
        | none => exact .inr hfailed
        | some mnemonic =>
            apply initializeWalletFromMnemonic_wp
            · exact ⟨hfs, seedFile, mnemonic, rfl, hseed ▸ .encrypted hdecrypt, rfl⟩
            · exact .inr hfailed
  · rintro _ t ⟨hwallet, hsound⟩
    exact .inr ⟨hsound, hwallet.trans hnone⟩

/-! ## Creation -/

/-- What is found of the seed is nothing, or a file that gives a mnemonic back. -/
def Complete (crates : SeedCrates μ) (contents : Option Bytes) : Prop :=
  contents = none ∨ ∃ seedFile password mnemonic, seedFile.version = SeedFile.currentVersion ∧
    Opens crates seedFile.seed password mnemonic ∧ contents = some (crates.serialize seedFile)

theorem Complete.stored {contents : Option Bytes} (h : Complete crates contents) :
    ∃ stored : Option SeedFile, contents = stored.map crates.serialize := by
  rcases h with h | ⟨seedFile, _, _, _, _, h⟩
  · exact ⟨none, h⟩
  · exact ⟨some seedFile, h⟩

/-- The mnemonic of a new wallet, and the birthday that is recorded for it. -/
inductive Chosen (context : CallContext μ) : Option μ → μ → Option Nat → Prop
  | given {mnemonic : μ} : Chosen context (some mnemonic) mnemonic none
  | generated {mnemonic : μ} {blocks : Nat} : context.newMnemonic = some mnemonic →
      context.blocks = some blocks → Chosen context none mnemonic (some blocks)

theorem newWalletMnemonic_wp {given : Option μ} {post : μ × Option Nat → WalletState μ → Prop}
    {failed : WalletError → WalletState μ → Prop}
    (hpost : ∀ mnemonic birthdayHeight, Chosen context given mnemonic birthdayHeight →
      post (mnemonic, birthdayHeight) st)
    (hfailed : ∀ e, failed e st) : wp (newWalletMnemonic context given) post failed st := by
  cases given with
  | some mnemonic => exact hpost _ _ .given
  | none =>
      unfold newWalletMnemonic
      dsimp only
      cases hnew : context.newMnemonic with
      | none => exact hfailed _
      | some mnemonic =>
          dsimp only
          cases hblocks : context.blocks with
          | none => exact hfailed _
          | some blocks => exact hpost _ _ (.generated hnew hblocks)

theorem createNewWallet_wp (st : WalletState μ) (lawful : crates.Lawful)
    (h : st.disk.fs.Sound .tmpPath .path (Complete crates))
    (given : Option μ) (password : Option Bytes) :
    wp ((WalletCall.createNewWallet given password).program crates context)
      (fun _ t => ∃ seed mnemonic birthdayHeight, Chosen context given mnemonic birthdayHeight ∧
        Opens crates seed password mnemonic ∧ t.bitcoinWallet = some mnemonic ∧
        t.disk.fs.Sound .tmpPath .path
          (· = some (crates.serialize ⟨SeedFile.currentVersion, context.now, birthdayHeight, seed⟩)))
      (fun _ t => t.disk.fs.Sound .tmpPath .path (Complete crates) ∧ t.bitcoinWallet = st.bitcoinWallet)
      st := by
  rw [WalletCall.program, createNewWallet, Program.wp_bind]
  apply newWalletMnemonic_wp _ fun _ => ⟨h, rfl⟩
  intro mnemonic birthdayHeight hchosen
  rw [Program.wp_bind, Program.wp_ofExcept]
  refine ⟨fun seed hseed => ?_, fun _ _ => ⟨h, rfl⟩⟩
  have hopens := storedSeed_opens lawful hseed
  have hcomplete : ∀ c, Complete crates c ∨
      c = some (crates.serialize ⟨SeedFile.currentVersion, context.now, birthdayHeight, seed⟩) →
        Complete crates c := by
    intro c hc
    rcases hc with hc | hc
    · exact hc
    · exact .inr ⟨_, password, mnemonic, rfl, hopens, hc⟩
  rw [Program.wp_bind]
  apply (onDisk_wp st (insertSeed_spec h hcomplete)).mono
  · rintro _ t ⟨hwallet, hstored⟩
    apply initializeWalletFromMnemonic_wp
    · exact ⟨seed, mnemonic, birthdayHeight, hchosen, hopens, rfl, hstored⟩
    · refine ⟨hstored.mono fun c hc => hcomplete c (.inr hc), hwallet⟩
  · rintro _ t ⟨hwallet, hsound⟩
    exact ⟨hsound, hwallet⟩

theorem createNewWallet_present (st : WalletState μ) (h : st.disk.fs.Sound .tmpPath .path P)
    (hpresent : st.disk.fs.read .path ≠ none) (hchecks : ∀ extent, st.disk.faults 0 ≠ .fails extent)
    (given : Option μ) (password : Option Bytes) :
    wp ((WalletCall.createNewWallet given password).program crates context) (fun _ _ => False)
      (fun e t => t.bitcoinWallet = st.bitcoinWallet ∧
        (t.disk.fs = st.disk.fs ∨ e = .io .crashed ∧ t.disk.fs.Sound .tmpPath .path P)) st := by
  rw [WalletCall.program, createNewWallet, Program.wp_bind]
  apply newWalletMnemonic_wp _ fun _ => ⟨rfl, .inl rfl⟩
  intro mnemonic birthdayHeight _
  rw [Program.wp_bind, Program.wp_ofExcept]
  refine ⟨fun seed _ => ?_, fun _ _ => ⟨rfl, .inl rfl⟩⟩
  rw [Program.wp_bind, onDisk, Program.wp_focus]
  apply (insertSeed_present h hpresent hchecks seed birthdayHeight context.now).mono
  · intro _ _ hfalse
    exact hfalse.elim
  · intro e t ht
    exact ⟨rfl, ht⟩

/-! ## Events -/

/-- A check whether there is a seed does not fail. -/
def WalletEvent.Checks (event : WalletEvent μ) : Prop :=
  ∀ mnemonic password, event.call = .createNewWallet mnemonic password →
    ∀ extent, event.faults 0 ≠ .fails extent

theorem WalletState.after_of_ne (st : WalletState μ) {e : WalletError} (h : e ≠ .io .crashed) :
    st.after (.error e) = st := by
  rw [WalletState.after]
  intro heq
  cases heq
  exact h rfl

theorem runEvent_wp {call : WalletCall μ} {faults : Nat → FileFault UInt8}
    {post : Unit → WalletState μ → Prop} {kept : WalletState μ → Prop}
    {failed outcome : WalletError → WalletState μ → Prop}
    (h : wp (call.program crates context) post failed (st.withFaults faults))
    (hpost : ∀ t, post () t → kept t)
    (hfailed : ∀ e t, e ≠ .io .crashed → failed e t → outcome e t)
    (hcrashed : ∀ t, failed (.io .crashed) t → outcome (.io .crashed) { t with bitcoinWallet := none }) :
    wp (runEvent crates ⟨call, context, faults⟩) (fun _ => kept) outcome st := by
  apply Program.wp_iff.mpr
  constructor
  · intro a t ht
    obtain ⟨hok, rfl⟩ := Prod.mk.inj ht
    rw [hok]
    exact hpost _ (h.ok (Program.eq_of_fst hok))
  · intro e t ht
    obtain ⟨herror, rfl⟩ := Prod.mk.inj ht
    have hend := h.error (Program.eq_of_fst herror)
    rw [herror]
    by_cases he : e = .io .crashed
    · subst he
      exact hcrashed _ hend
    · rw [WalletState.after_of_ne _ he]
      exact hfailed e _ he hend

end

end Bip360Enforcer.Wallet
