import Bip360Enforcer.Wallet.Spend
import Bip360Enforcer.Wallet.Theorems.P2mrFile

/-!
# The addresses in the file of the wallet
-/

namespace Bip360Enforcer.Wallet

open Machine (Blamed Within)
open P2mrFile (Cause Holds StoreStep)
open Pqc (Signers)
open Program (wp)

/-- What may go wrong while the machine does not crash. -/
def mildFaults : Set (FileFault UInt8) :=
  {fault | ∀ extent version garbage, fault ≠ .crash extent version garbage}

theorem not_blamed_crashed : ¬ Blamed mildFaults .crashed := by
  intro h
  cases h with
  | crashed hfault => exact hfault _ _ _ rfl

variable {C : Crypto} {S : Signers} {json : P2mrJson} {w w' w'' : Wallet C} {scheme : P2mrScheme}
  {entropy : Option Bytes} {spk : Script} {store store' current : P2mrStore}
  {fs : FileSystem P2mrPath UInt8}

/-- The addresses that the file lists, if nothing goes wrong. -/
def addresses (json : P2mrJson) (w : Wallet C) : P2mrStore :=
  ((P2mrFile.list json ⟨w.disk.fs, fun _ => .none⟩).1.toOption).getD []

/-- The file has the addresses in it, and the machine does not crash from here on. -/
structure Stored (json : P2mrJson) (w : Wallet C) : Prop where
  file : ∃ kept, Holds json kept (w.addresses json) w.disk.fs
  alive : w.disk.Within mildFaults

theorem addresses_eq {kept : P2mrStore} (lawful : json.Lawful) (h : Holds json kept current w.disk.fs) :
    w.addresses json = current := by
  rw [addresses, P2mrFile.list_ok lawful h.now]
  rfl

theorem Stored.of_holds {kept : P2mrStore} (lawful : json.Lawful) (h : Holds json kept current w.disk.fs)
    (halive : w.disk.Within mildFaults) : Stored json w :=
  ⟨⟨kept, (addresses_eq lawful h).symm ▸ h⟩, halive⟩

theorem addresses_congr (hdisk : w'.disk = w.disk) : w'.addresses json = w.addresses json := by
  rw [addresses, hdisk]
  rfl

theorem Stored.congr (h : Stored json w) (hdisk : w'.disk = w.disk) : Stored json w' := by
  refine ⟨?_, hdisk ▸ h.alive⟩
  rw [addresses_congr hdisk, hdisk]
  exact h.file

/-- Earlier calls have left the file with addresses that were made. -/
theorem Stored.of_run (lawful : json.Lawful) {events : List P2mrEvent}
    (hdisk : w.disk.fs = (P2mrFile.run C S json events .empty).2) (halive : w.disk.Within mildFaults) :
    Stored json w ∧ ∀ record ∈ w.addresses json, P2mrFile.Built C S record := by
  obtain ⟨⟨kept, current⟩, hrun, hholds⟩ :=
    P2mrFile.run_refines (C := C) (S := S) lawful events Holds.empty
  rw [← hdisk] at hholds
  refine ⟨.of_holds lawful hholds halive, ?_⟩
  rw [addresses_eq lawful hholds]
  exact hrun.built fun _ hin => by cases hin

/-! ## More addresses -/

/-- The store has got some addresses more. -/
def Grows (C : Crypto) (S : Signers) (store store' : P2mrStore) : Prop :=
  ∃ new, store' = store ++ new ∧
    ∀ record ∈ new, ∃ scheme entropy, buildRecord C S scheme entropy = .ok record

namespace Grows

theorem refl (store : P2mrStore) : Grows C S store store :=
  ⟨[], (List.append_nil store).symm, fun _ hin => by cases hin⟩

theorem single {record : P2mrAddressRecord} {bytes : Bytes} (h : buildRecord C S scheme bytes = .ok record) :
    Grows C S store (store ++ [record]) := by
  refine ⟨[record], rfl, fun built hin => ?_⟩
  obtain rfl := List.mem_singleton.mp hin
  exact ⟨scheme, bytes, h⟩

theorem trans {store'' : P2mrStore} (h : Grows C S store store') (h' : Grows C S store' store'') :
    Grows C S store store'' := by
  obtain ⟨new, rfl, hnew⟩ := h
  obtain ⟨new', rfl, hnew'⟩ := h'
  refine ⟨new ++ new', List.append_assoc store new new', ?_⟩
  intro record hin
  rcases List.mem_append.mp hin with hin | hin
  · exact hnew record hin
  · exact hnew' record hin

theorem subset (h : Grows C S store store') : store ⊆ store' := by
  obtain ⟨new, rfl, -⟩ := h
  exact List.subset_append_left store new

theorem getBySpk (h : Grows C S store store') {record : P2mrAddressRecord}
    (hfound : store.getBySpk spk = some record) : store'.getBySpk spk = some record := by
  obtain ⟨new, rfl, -⟩ := h
  rw [P2mrStore.getBySpk] at hfound ⊢
  rw [List.find?_append, hfound, Option.some_or]

end Grows

/-! ## Calls of the store -/

/-- The databases and the queue are as before, and the store has at most grown. -/
structure Prepares (S : Signers) (json : P2mrJson) (w w' : Wallet C) : Prop where
  dbs : w'.producer.store.dbs = w.producer.store.dbs
  pending : w'.producer.pending = w.producer.pending
  store : Grows C S (w.addresses json) (w'.addresses json)
  stored : Stored json w'

theorem Prepares.refl (h : Stored json w) : Prepares S json w w := ⟨rfl, rfl, .refl _, h⟩

theorem Prepares.trans (h : Prepares S json w w') (h' : Prepares S json w' w'') : Prepares S json w w'' :=
  ⟨h'.dbs.trans h.dbs, h'.pending.trans h.pending, h.store.trans h'.store, h'.stored⟩

theorem Prepares.of_holds {kept : P2mrStore} (lawful : json.Lawful) {disk : Machine P2mrPath UInt8}
    (hgrows : Grows C S (w.addresses json) current) (h : Holds json kept current disk.fs)
    (halive : disk.Within mildFaults) : Prepares S json w { w with disk := disk } := by
  have hcurrent : ({ w with disk := disk } : Wallet C).addresses json = current := addresses_eq lawful h
  exact ⟨rfl, rfl, hcurrent.symm ▸ hgrows, .of_holds lawful h halive⟩

theorem getBySpk_wp (lawful : json.Lawful) (h : Stored json w) :
    wp (onP2mrStore (P2mrFile.getBySpk json spk))
      (fun found w' => Prepares S json w w' ∧ w'.addresses json = w.addresses json ∧
        found = (w.addresses json).getBySpk spk)
      (fun e w' => Prepares S json w w' ∧ e = .read .io) w := by
  obtain ⟨⟨kept, hholds⟩, halive⟩ := h
  rw [onP2mrStore, Program.wp_focus]
  apply (P2mrFile.getBySpk_refines (C := C) (S := S) lawful hholds spk w.disk rfl halive).mono
  · rintro found disk ⟨⟨st, hstep, hst⟩, halive'⟩
    cases hstep with
    | found => exact ⟨.of_holds lawful (.refl _) hst halive', addresses_eq lawful hst, rfl⟩
  · rintro e disk ⟨⟨st, hstep, hst⟩, halive'⟩
    cases hstep with
    | failed cause =>
        cases cause with
        | read _ => exact ⟨.of_holds lawful (.refl _) hst halive', rfl⟩
    | crashed blamed _ _ => exact absurd blamed not_blamed_crashed

theorem createP2mrAddress_wp (lawful : json.Lawful) (h : Stored json w) :
    wp (createP2mrAddress S json scheme entropy)
      (fun record w' => Prepares S json w w' ∧ record ∈ w'.addresses json ∧ record.scheme = scheme)
      (fun e w' => Prepares S json w w' ∧
        Cause C S json mildFaults (w.addresses json) (.create scheme entropy) e) w := by
  obtain ⟨⟨kept, hholds⟩, halive⟩ := h
  rw [createP2mrAddress, onP2mrStore, Program.wp_focus]
  apply (P2mrFile.create_refines lawful hholds scheme entropy w.disk rfl halive).mono
  · rintro record disk ⟨⟨st, hstep, hst⟩, halive'⟩
    cases hstep with
    | created hrecord =>
        have hstored : ({ w with disk := disk } : Wallet C).addresses json = w.addresses json ++ [record] :=
          addresses_eq lawful hst
        refine ⟨.of_holds lawful (.single hrecord) hst halive', ?_, ?_⟩
        · rw [hstored]
          exact List.mem_append_right _ (List.mem_singleton_self _)
        · obtain ⟨⟨spk, leaf⟩, -, heq⟩ := Except.bind_eq_ok_iff.mp hrecord
          cases heq
          rfl
  · rintro e disk ⟨⟨st, hstep, hst⟩, halive'⟩
    cases hstep with
    | failed cause => exact ⟨.of_holds lawful (.refl _) hst halive', cause⟩
    | failedLate hrecord blamed =>
        exact ⟨.of_holds lawful (.single hrecord) hst halive', .write hrecord blamed⟩
    | crashed blamed _ _ => exact absurd blamed not_blamed_crashed
    | crashedLate _ blamed _ _ => exact absurd blamed not_blamed_crashed

end Bip360Enforcer.Wallet
