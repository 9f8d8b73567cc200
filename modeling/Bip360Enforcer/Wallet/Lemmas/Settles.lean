import Bip360Enforcer.Wallet.Lemmas.Disk
import Bip360Enforcer.Wallet.Lemmas.Queue

/-!
# How a spend divides the value of its output
-/

namespace Bip360Enforcer.Wallet

open Except (bind_eq_ok_iff mapError_eq_error_iff mapError_eq_ok_iff)
open P2mrFile (Cause)
open Pqc (Signers)
open Program (wp)

variable {C : Crypto} {S : Signers} {isDust : Amount → Script → Bool} {request : SpendRequest}
  {prevout : TxOut} {plan : SpendPlan} {record : P2mrAddressRecord} {store store' : P2mrStore}
  {scheme : P2mrScheme} {outpoint : OutPoint} {outputs : List TxOut} {sighashType : TapSighashType}
  {tx : Transaction} {actualFee : Amount} {json : P2mrJson} {entropy : Option Bytes} {w : Wallet C}

/-! ## Plans -/

/-- The fee that was asked for. -/
def SpendRequest.fee (request : SpendRequest) : Amount := request.feeSats.getD defaultP2mrFeeSats

/-- The value goes to the destination, the fee and the change, which is no dust; dust goes to the fee. -/
inductive Divides (isDust : Amount → Script → Bool) (request : SpendRequest) (prevout : TxOut) :
    SpendPlan → Prop where
  | exact (total : request.amount.toNat + request.fee.toNat = prevout.value.toNat) :
      Divides isDust request prevout ⟨request.fee, none⟩
  | dust {fee change : Amount} (small : isDust change prevout.scriptPubkey = true)
      (kept : fee.toNat = request.fee.toNat + change.toNat)
      (total : request.amount.toNat + fee.toNat = prevout.value.toNat) :
      Divides isDust request prevout ⟨fee, none⟩
  | change {change : Amount} (large : isDust change prevout.scriptPubkey = false)
      (total : request.amount.toNat + request.fee.toNat + change.toNat = prevout.value.toNat) :
      Divides isDust request prevout ⟨request.fee, some change⟩

theorem planSpend_divides (h : planSpend isDust request prevout = .ok plan) :
    isDust request.amount request.destination = false ∧ Divides isDust request prevout plan := by
  unfold planSpend at h
  rw [Except.ite_error_eq_ok_iff] at h
  obtain ⟨hamount, h⟩ := h
  refine ⟨by simpa using hamount, ?_⟩
  change (if prevout.value.toNat < request.amount.toNat + request.fee.toNat then _ else _) = _ at h
  rw [Except.ite_error_eq_ok_iff] at h
  obtain ⟨htotal, h⟩ := h
  have hvalue := prevout.value.toNat_lt
  have hsum : (request.amount + request.fee).toNat = request.amount.toNat + request.fee.toNat := by
    rw [UInt64.toNat_add]
    omega
  have hle : request.amount + request.fee ≤ prevout.value := by
    rw [UInt64.le_iff_toNat_le, hsum]
    omega
  have hchange : (prevout.value - (request.amount + request.fee)).toNat =
      prevout.value.toNat - (request.amount.toNat + request.fee.toNat) := by
    rw [UInt64.toNat_sub_of_le _ _ hle, hsum]
  change (if prevout.value - (request.amount + request.fee) = 0 then _ else _) = _ at h
  split at h
  · rename_i hzero
    cases h
    rw [hzero] at hchange
    apply Divides.exact
    have h0 : (0 : UInt64).toNat = 0 := rfl
    omega
  · change (if isDust (prevout.value - (request.amount + request.fee)) prevout.scriptPubkey = true
      then _ else _) = _ at h
    have hamountle : request.amount ≤ prevout.value := by
      rw [UInt64.le_iff_toNat_le]
      omega
    split at h
    · rename_i hsmall
      cases h
      have hfee : (prevout.value - request.amount).toNat = prevout.value.toNat - request.amount.toNat :=
        UInt64.toNat_sub_of_le _ _ hamountle
      apply Divides.dust hsmall
      · omega
      · omega
    · rename_i hlarge
      cases h
      have htotal : request.amount.toNat + request.fee.toNat +
          (prevout.value - (request.amount + request.fee)).toNat = prevout.value.toNat := by omega
      exact .change (Bool.eq_false_of_not_eq_true hlarge) htotal

/-! ## Transactions -/

theorem output_buildP2mrSpend {algorithm : Pqc.SignAlgorithm} {entropy : Bytes}
    (h : Pqc.buildP2mrSpendFromPrevout C S algorithm entropy sighashType outpoint prevout outputs = .ok tx) :
    tx.output = outputs := by
  simp only [Pqc.buildP2mrSpendFromPrevout, Pqc.signP2mrSpendCore, bind_eq_ok_iff, Except.ok.injEq] at h
  obtain ⟨_, -, _, ⟨_, -, _, -, _, -, _, -, rfl⟩, rfl⟩ := h
  rfl

theorem output_buildHybridEcSlhSpend {ec slh : Bytes}
    (h : Pqc.buildHybridEcSlhSpendFromPrevout C S ec slh sighashType outpoint prevout outputs = .ok tx) :
    tx.output = outputs := by
  simp only [Pqc.buildHybridEcSlhSpendFromPrevout, bind_eq_ok_iff, Except.ok.injEq] at h
  obtain ⟨_, -, _, -, _, -, _, -, _, -, _, -, _, -, rfl⟩ := h
  rfl

theorem output_buildSpend (h : record.buildSpend C S outpoint prevout outputs sighashType = .ok tx) :
    tx.output = outputs := by
  rcases P2mrAddressRecord.buildSpend_cases h with ⟨algorithm, -, h⟩ | ⟨ec, slh, -, h⟩
  · exact output_buildP2mrSpend h
  · exact output_buildHybridEcSlhSpend h

/-! ## Spends -/

/-- An output that goes back to the wallet: to an address of its store, of the same scheme. -/
structure ChangeOf (isDust : Amount → Script → Bool) (store : P2mrStore) (prevout : TxOut)
    (scheme : P2mrScheme) (output : TxOut) : Prop where
  large : isDust output.value prevout.scriptPubkey = false
  own : ∃ record ∈ store, record.scriptPubkey = output.scriptPubkey ∧ record.scheme = scheme

/-- The transaction spends the output alone, pays what was asked for to the destination and the rest to the
fee and to the wallet itself. -/
structure Settles (isDust : Amount → Script → Bool) (store : P2mrStore) (request : SpendRequest)
    (prevout : TxOut) (scheme : P2mrScheme) (tx : Transaction) (fee : Amount) : Prop where
  spends : tx.spends = [request.outpoint]
  balanced : (tx.output.map fun output => output.value.toNat).sum + fee.toNat = prevout.value.toNat
  pays : ∃ change, tx.output = ⟨request.amount, request.destination⟩ :: change ∧
    (∀ output ∈ change, ChangeOf isDust store prevout scheme output) ∧
    (fee = request.fee ∨ ∃ dust : Amount, isDust dust prevout.scriptPubkey = true ∧
      fee.toNat = request.fee.toNat + dust.toNat)

theorem ChangeOf.grow {output : TxOut} (h : ChangeOf isDust store prevout scheme output)
    (hgrow : store ⊆ store') : ChangeOf isDust store' prevout scheme output := by
  obtain ⟨record, hrecord, hspk⟩ := h.own
  exact ⟨h.large, record, hgrow hrecord, hspk⟩

theorem Settles.grow (h : Settles isDust store request prevout scheme tx actualFee)
    (hgrow : store ⊆ store') : Settles isDust store' request prevout scheme tx actualFee := by
  obtain ⟨change, houtput, hchange, hfee⟩ := h.pays
  exact ⟨h.spends, h.balanced, change, houtput, fun output hin => (hchange output hin).grow hgrow, hfee⟩

theorem Divides.settles (h : Divides isDust request prevout plan) (hspends : tx.spends = [request.outpoint])
    {change : List TxOut} (houtput : tx.output = ⟨request.amount, request.destination⟩ :: change)
    (hplan : change.map TxOut.value = plan.change.toList)
    (hown : ∀ output ∈ change, ∃ record ∈ store, record.scriptPubkey = output.scriptPubkey ∧
      record.scheme = scheme) : Settles isDust store request prevout scheme tx plan.actualFee := by
  have hsum : (tx.output.map fun output => output.value.toNat).sum =
      request.amount.toNat + (plan.change.toList.map UInt64.toNat).sum := by
    rw [houtput, List.map_cons, List.sum_cons, ← hplan, List.map_map]
    rfl
  refine ⟨hspends, ?_, change, houtput, ?_, ?_⟩
  · rw [hsum]
    cases h with
    | exact total =>
        simp only [Option.toList_none, List.map_nil, List.sum_nil]
        omega
    | dust small kept total =>
        simp only [Option.toList_none, List.map_nil, List.sum_nil]
        omega
    | change large total =>
        simp only [Option.toList_some, List.map_cons, List.map_nil, List.sum_cons, List.sum_nil]
        omega
  · intro output hin
    refine ⟨?_, hown output hin⟩
    have hvalue : output.value ∈ plan.change.toList := hplan ▸ List.mem_map_of_mem hin
    cases h with
    | exact total => cases hvalue
    | dust small kept total => cases hvalue
    | change large total =>
        rw [List.mem_singleton.mp hvalue]
        exact large
  · cases h with
    | exact total => exact .inl rfl
    | dust small kept total => exact .inr ⟨_, small, kept⟩
    | change large total => exact .inl rfl

/-! ## Programs -/

theorem findPrevout_found (h : Stored json w) :
    wp (findPrevout request)
      (fun prevout w' => Prepares S json w w' ∧ w'.addresses json = w.addresses json ∧
        w.producer.store.dbs.p2mrUtxos.lookup request.outpoint = some prevout)
      (fun e w' => Prepares S json w w' ∧ (e = .getP2mrUtxos .io ∨
        w.producer.store.dbs.p2mrUtxos.lookup request.outpoint = none ∧
          e = .unknownUtxo request.outpoint)) w := by
  simp only [findPrevout, onProducer, BlockProducer.getP2mrUtxo, BlockProducer.onStore, Program.wp_focus,
    Program.wp_mapError, Program.wp_bind, Validator.wp_read, Program.wp_pure]
  have hsame : ∀ t : Validator.Store, t.dbs = w.producer.store.dbs →
      Prepares S json w { w with producer := { w.producer with store := t } } := by
    intro t ht
    exact ⟨ht, rfl, .refl _, h.congr rfl⟩
  constructor
  · intro _
    exact ⟨hsame _ rfl, .inl rfl⟩
  · intro _
    cases hlookup : w.producer.store.dbs.p2mrUtxos.lookup request.outpoint with
    | none => exact ⟨hsame _ rfl, .inr ⟨rfl, rfl⟩⟩
    | some prevout => exact ⟨hsame _ rfl, rfl, rfl⟩

/-- Why a spend is refused whose output is there. -/
inductive Refusal (S : Signers) (json : P2mrJson) (isDust : Amount → Script → Bool) (store : P2mrStore)
    (request : SpendRequest) (entropy : Option Bytes) (prevout : TxOut) : SpendP2mrError → Prop where
  | read : Refusal S json isDust store request entropy prevout (.store (.read .io))
  | notOurs (foreign : store.getBySpk prevout.scriptPubkey = none) :
      Refusal S json isDust store request entropy prevout
        (.notOurs request.outpoint prevout.scriptPubkey)
  | plan {record : P2mrAddressRecord} {e : SpendP2mrError}
      (own : store.getBySpk prevout.scriptPubkey = some record)
      (fails : planSpend isDust request prevout = .error e) :
      Refusal S json isDust store request entropy prevout e
  | change {record : P2mrAddressRecord} {source : P2mrFileError}
      (own : store.getBySpk prevout.scriptPubkey = some record)
      (cause : Cause C S json mildFaults store (.create record.scheme entropy) source) :
      Refusal S json isDust store request entropy prevout (.store source)
  | sign {record : P2mrAddressRecord} (source : P2mrStoreError)
      (own : store.getBySpk prevout.scriptPubkey = some record) :
      Refusal S json isDust store request entropy prevout (.store (.store source))

theorem planOwnSpend_planned (lawful : json.Lawful) (h : Stored json w) (entropy : Option Bytes) :
    wp (planOwnSpend json isDust request prevout)
      (fun planned w' => Prepares S json w w' ∧ w'.addresses json = w.addresses json ∧
        (w.addresses json).getBySpk prevout.scriptPubkey = some planned.1 ∧
        planSpend isDust request prevout = .ok planned.2)
      (fun e w' => Prepares S json w w' ∧
        Refusal (C := C) S json isDust (w.addresses json) request entropy prevout e) w := by
  rw [planOwnSpend, Program.wp_bind, Program.wp_mapError]
  apply (getBySpk_wp lawful h).mono
  · rintro found w' ⟨hprepares, hstore, rfl⟩
    cases hown : (w.addresses json).getBySpk prevout.scriptPubkey with
    | none => exact ⟨hprepares, .notOurs hown⟩
    | some record =>
        rw [Program.wp_bind, Program.wp_ofExcept]
        constructor
        · intro plan hplan
          exact ⟨hprepares, hstore, rfl, hplan⟩
        · intro e herror
          exact ⟨hprepares, .plan hown herror⟩
  · rintro e w' ⟨hprepares, rfl⟩
    exact ⟨hprepares, .read⟩

theorem spendOutputs_change (lawful : json.Lawful) (h : Stored json w) :
    wp (spendOutputs S json request plan scheme entropy)
      (fun result w' => Prepares S json w w' ∧ ∃ change,
        result.1 = ⟨request.amount, request.destination⟩ :: change ∧
        change.map TxOut.value = plan.change.toList ∧
        ∀ output ∈ change, ∃ record ∈ w'.addresses json, record.scriptPubkey = output.scriptPubkey ∧
          record.scheme = scheme)
      (fun e w' => Prepares S json w w' ∧ ∃ source, e = .store source ∧
        Cause C S json mildFaults (w.addresses json) (.create scheme entropy) source) w := by
  unfold spendOutputs
  cases hplan : plan.change with
  | none => exact ⟨.refl h, [], rfl, rfl, fun _ hin => by cases hin⟩
  | some change =>
      simp only [Program.wp_bind, Program.wp_mapError]
      apply (createP2mrAddress_wp lawful h).mono
      · rintro record w' ⟨hprepares, hrecord, hscheme⟩
        refine ⟨hprepares, [⟨change, record.scriptPubkey⟩], rfl, rfl, ?_⟩
        intro output hin
        obtain rfl := List.mem_singleton.mp hin
        exact ⟨record, hrecord, rfl, hscheme⟩
      · rintro source w' ⟨hprepares, hcause⟩
        exact ⟨hprepares, source, rfl, hcause⟩

theorem signSpend_settles (lawful : json.Lawful) (h : Stored json w) (isDust : Amount → Script → Bool) :
    wp (signSpend S json request prevout record plan entropy)
      (fun spend w' => Prepares S json w w' ∧ (planSpend isDust request prevout = .ok plan →
        Settles isDust (w'.addresses json) request prevout record.scheme spend.tx spend.actualFee))
      (fun e w' => Prepares S json w w' ∧ ∃ source, e = .store source ∧
        (Cause C S json mildFaults (w.addresses json) (.create record.scheme entropy) source ∨
          ∃ error, source = .store error)) w := by
  rw [signSpend, Program.wp_bind]
  apply (spendOutputs_change lawful h).mono
  · rintro ⟨outputs, changeAddress⟩ w' ⟨hprepares, change, rfl, hvalues, hown⟩
    rw [Program.wp_bind, Program.wp_ofExcept]
    constructor
    · intro tx htx
      rw [mapError_eq_ok_iff] at htx
      refine ⟨hprepares, fun hplan => ?_⟩
      obtain ⟨-, hdivides⟩ := planSpend_divides hplan
      exact hdivides.settles (spends_buildSpend htx) (output_buildSpend htx) hvalues hown
    · intro e he
      obtain ⟨error, -, rfl⟩ := mapError_eq_error_iff.mp he
      exact ⟨hprepares, .store error, rfl, .inr ⟨error, rfl⟩⟩
  · rintro e w' ⟨hprepares, source, rfl, hcause⟩
    exact ⟨hprepares, source, rfl, .inl hcause⟩

end Bip360Enforcer.Wallet
