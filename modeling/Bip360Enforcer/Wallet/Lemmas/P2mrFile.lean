import Bip360Enforcer.Library.SafeFile
import Bip360Enforcer.Wallet.P2mrFile

/-!
# What the file of the P2MR keys holds
-/

namespace Bip360Enforcer.Wallet

open FileSystem (Sound)
open Machine

/-- What has been written as JSON is read back. -/
structure P2mrJson.Lawful (json : P2mrJson) : Prop where
  isUtf8 : ∀ file contents, json.toStringPretty file = some contents → json.isUtf8 contents = true
  fromStr : ∀ file contents, json.toStringPretty file = some contents → json.fromStr contents = some file

namespace P2mrFile

variable {json : P2mrJson} {kept current store : P2mrStore} {fs d : FileSystem P2mrPath UInt8}
  {faults : Set (FileFault UInt8)}

/-- What the file has in it when the store is written to it. -/
inductive Written (json : P2mrJson) : P2mrStore → Option Bytes → Prop
  | missing : Written json [] none
  | file {store : P2mrStore} {contents : Bytes} :
      json.toStringPretty ⟨currentVersion, store⟩ = some contents → Written json store (some contents)

/-- The store of the file has what is kept for good, and nothing but what is there now. -/
def Between (json : P2mrJson) (kept current : P2mrStore) (contents : Option Bytes) : Prop :=
  ∃ store, kept <+: store ∧ store <+: current ∧ Written json store contents

theorem Written.between {contents : Option Bytes} (h : Written json current contents)
    (hkept : kept <+: current) : Between json kept current contents :=
  ⟨current, hkept, List.prefix_rfl, h⟩

theorem Between.grow {contents : Option Bytes} (h : Between json kept current contents)
    (hgrow : current <+: store) : Between json kept store contents := by
  obtain ⟨middle, hkept, hcurrent, hwritten⟩ := h
  exact ⟨middle, hkept, hcurrent.trans hgrow, hwritten⟩

/-- The file has the store in it; a crash takes away nothing of what is kept. -/
structure Holds (json : P2mrJson) (kept current : P2mrStore) (fs : FileSystem P2mrPath UInt8) : Prop where
  sound : fs.Sound .tmp .path (Between json kept current)
  now : Written json current (fs.read .path)
  grown : kept <+: current

theorem Holds.empty : Holds json [] [] .empty :=
  ⟨.empty ⟨[], List.prefix_rfl, List.prefix_rfl, .missing⟩, .missing, List.prefix_rfl⟩

/-- After a crash, all that is left is kept. -/
theorem Holds.of_settled (h : d.Sound .tmp .path (Between json kept current)) (holder : d.older = []) :
    ∃ store, kept <+: store ∧ store <+: current ∧ Holds json store store d := by
  obtain ⟨store, hkept, hcurrent, hwritten⟩ := h.read
  refine ⟨store, hkept, hcurrent, (h.settled holder).mono ?_, hwritten, List.prefix_rfl⟩
  rintro _ rfl
  exact hwritten.between List.prefix_rfl

/-- What a call leaves that fails before the file is replaced. -/
inductive Fails (json : P2mrJson) (faults : Set (FileFault UInt8)) (kept current : P2mrStore) :
    FileError → FileSystem P2mrPath UInt8 → Prop where
  | io {d : FileSystem P2mrPath UInt8} (blamed : Blamed faults .io) (holds : Holds json kept current d) :
      Fails json faults kept current .io d
  | crashed {store : P2mrStore} {d : FileSystem P2mrPath UInt8} (blamed : Blamed faults .crashed)
      (keeps : kept <+: store) (left : store <+: current) (holds : Holds json store store d) :
      Fails json faults kept current .crashed d

theorem Holds.fails (h : Holds json kept current fs) {e : FileError}
    (hleft : Left .tmp .path (Between json kept current) faults fs e d) :
    Fails json faults kept current e d := by
  cases hleft.blamed with
  | io =>
      exact .io hleft.blamed ⟨hleft.sound, hleft.unchanged (by rintro ⟨⟩) ▸ h.now, h.grown⟩
  | crashed =>
      obtain ⟨store, hkept, hcurrent, hholds⟩ := Holds.of_settled hleft.sound (hleft.settled rfl)
      exact .crashed hleft.blamed hkept hcurrent hholds

/-! ## Reading -/

theorem readFile_spec (lawful : json.Lawful) (h : Holds json kept current fs) :
    Spec faults (readFile json) fs (fun file d => file.addresses = current ∧ d = fs)
      fun e d => ∃ source, e = .read source ∧ Fails json faults kept current source d := by
  have hnow := h.now
  apply Spec.bind
  apply Spec.attempt
  apply readFile_sound h.sound
  · intro contents hread
    rw [hread] at hnow
    cases hnow with
    | file hwritten =>
        dsimp only
        rw [if_pos (lawful.isUtf8 _ _ hwritten), lawful.fromStr _ _ hwritten]
        exact .pure ⟨rfl, rfl⟩
  · intro hread
    rw [hread] at hnow
    cases hnow
    exact .pure ⟨rfl, rfl⟩
  · intro e d hleft
    cases hleft.blamed with
    | io => exact .fail ⟨_, rfl, h.fails hleft⟩
    | crashed => exact .fail ⟨_, rfl, h.fails hleft⟩

/-! ## Writing -/

/-- What a call leaves that fails to put a longer store in the place of the one that is there. -/
inductive FailsLate (json : P2mrJson) (faults : Set (FileFault UInt8)) (kept current next : P2mrStore) :
    FileError → FileSystem P2mrPath UInt8 → Prop where
  | io {d : FileSystem P2mrPath UInt8} (blamed : Blamed faults .io)
      (holds : Holds json kept current d ∨ Holds json kept next d) :
      FailsLate json faults kept current next .io d
  | crashed {store : P2mrStore} {d : FileSystem P2mrPath UInt8} (blamed : Blamed faults .crashed)
      (keeps : kept <+: store) (left : store <+: next) (holds : Holds json store store d) :
      FailsLate json faults kept current next .crashed d

theorem Fails.late {e : FileError} (h : Fails json faults kept current e d) (hgrow : current <+: store) :
    FailsLate json faults kept current store e d := by
  cases h with
  | io blamed holds => exact .io blamed (.inl holds)
  | crashed blamed keeps left holds => exact .crashed blamed keeps (left.trans hgrow) holds

theorem replaceFile_spec (h : Holds json kept current fs) (hgrow : current <+: store) {contents : Bytes}
    (hcontents : json.toStringPretty ⟨currentVersion, store⟩ = some contents) :
    Spec faults (replaceFile contents) fs (fun _ d => Holds json kept store d)
      (FailsLate json faults kept current store) := by
  have hfailed : ∀ {before : FileSystem P2mrPath UInt8}, before.read .path = fs.read .path →
      ∀ e d, Left .tmp .path (Between json kept current) faults before e d →
        FailsLate json faults kept current store e d :=
    fun hread e d hleft => (h.fails (hleft.trans hread)).late hgrow
  have hkept := h.grown.trans hgrow
  apply Spec.bind
  apply openFile_sound (by decide) h.sound _ (hfailed rfl)
  intro f opened hopened hdir hempty hread
  apply Spec.bind
  apply effectful_sound hopened hopened rfl _ (hfailed hread)
  apply Spec.bind
  have hwritten := hopened.append hdir contents
  have hwrittenRead := (hopened.append_read hdir contents).trans hread
  have hdata : (opened.append f contents).content f = contents := by
    change (if f = f then opened.content f ++ _ else _) = _
    rw [if_pos rfl, hempty, List.nil_append]
  apply writeAll_sound hopened hdir _ (hfailed hread)
  apply Spec.bind
  apply effectful_sound hwritten hwritten.flush rfl _ (hfailed hwrittenRead)
  have hflushed : ((opened.append f contents).flush f).flushed f = true := by
    change (decide (f = f) || _) = true
    rw [decide_eq_true rfl, Bool.true_or]
  have hholds : ∀ d : FileSystem P2mrPath UInt8, d.Sound .tmp .path (Between json kept store) →
      d.read .path = some ((opened.append f contents).content f) → Holds json kept store d := by
    intro d hsound hread
    rw [hdata] at hread
    exact ⟨hsound, hread ▸ .file hcontents, hkept⟩
  apply renameFile_sound (by decide) hwritten.flush hdir hflushed _ hholds (hfailed hwrittenRead)
  · intro d hblamed hsound hread
    exact .io hblamed (.inr (hholds d hsound hread))
  · intro d hblamed hsound holder
    obtain ⟨left, hkept, hleft, hleftHolds⟩ := Holds.of_settled hsound holder
    exact .crashed hblamed hkept hleft hleftHolds
  · intro c hc
    rcases hc with hc | rfl
    · exact hc.grow hgrow
    · exact (Written.file (hdata.symm ▸ hcontents)).between hkept

end P2mrFile

end Bip360Enforcer.Wallet
