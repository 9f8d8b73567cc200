import Bip360Enforcer.Pqc.Unspent
import Bip360Enforcer.Validator.Theorems.Summary
import Bip360Enforcer.Wallet.Lemmas.Lives
import Bip360Enforcer.Wallet.P2mrOutputs
import Bip360Enforcer.Wallet.Theorems.Spends

/-!
# What the list of P2MR outputs says
-/

namespace Bip360Enforcer.Wallet

open P2mrFile (Cause)
open Pqc (Signers Unspent Digests history isP2mr)
open Program (wp)
open Validator (HonestHashes Tracked)

variable {C : Crypto} {S : Signers} {json : P2mrJson} {isDust : Amount → Script → Bool}
  {validator : Validator} {headers : Set Header} {chain : List Block} {w w' : Wallet C}
  {s start : Session C} {outputs : List P2mrOutput} {actions : List Action}

/-! ## The list -/

/-- An output as the list shows it. -/
def P2mrOutput.ofEntry (store : P2mrStore) (entry : Sigma fun _ : OutPoint => TxOut) : P2mrOutput where
  outpoint := entry.1
  txout := entry.2
  isMine := (store.getBySpk entry.2.scriptPubkey).isSome

theorem p2mrOutput_wp (lawful : json.Lawful) (h : Stored json w) (entry : Sigma fun _ : OutPoint => TxOut) :
    wp (p2mrOutput json entry)
      (fun output w' => output = .ofEntry (w.addresses json) entry ∧ Prepares S json w w' ∧
        w'.addresses json = w.addresses json)
      (fun e w' => Prepares S json w w' ∧ e = .store (.read .io)) w := by
  rw [p2mrOutput, Program.wp_bind, Program.wp_mapError]
  apply (getBySpk_wp lawful h).mono
  · rintro found w' ⟨hprepares, hstore, rfl⟩
    exact ⟨rfl, hprepares, hstore⟩
  · rintro e w' ⟨hprepares, rfl⟩
    exact ⟨hprepares, rfl⟩

theorem listP2mrOutputs_wp (lawful : json.Lawful) (h : Stored json w) :
    wp (listP2mrOutputs json)
      (fun outputs w' => Prepares S json w w' ∧ w'.addresses json = w.addresses json ∧
        outputs = w.producer.store.dbs.p2mrUtxos.sortedRecords (P2mrOutput.ofEntry (w.addresses json))
          P2mrOutput.outpoint)
      (fun e w' => Prepares S json w w' ∧ (e = .getP2mrUtxos .io ∨ e = .store (.read .io))) w := by
  have hsame : ∀ t : Validator.Store, t.dbs = w.producer.store.dbs →
      Prepares S json w { w with producer := { w.producer with store := t } } := by
    intro t ht
    exact ⟨ht, rfl, .refl _, h.congr rfl⟩
  simp only [listP2mrOutputs, p2mrUtxos, onProducer, BlockProducer.onStore, Program.wp_bind,
    Program.wp_mapError, Program.wp_focus, Validator.wp_read]
  constructor
  · intro _
    exact ⟨hsame _ rfl, .inl rfl⟩
  · intro _
    have hread : Prepares S json w
        { w with producer := { w.producer with store := w.producer.store.next } } := hsame _ rfl
    have hentry : ∀ entry t, Prepares S json w t ∧ t.addresses json = w.addresses json →
        wp (p2mrOutput json entry)
          (fun output t' => output = .ofEntry (w.addresses json) entry ∧ Prepares S json w t' ∧
            t'.addresses json = w.addresses json)
          (fun e t' => Prepares S json w t' ∧ (e = .getP2mrUtxos .io ∨ e = .store (.read .io))) t := by
      rintro entry t ⟨hprepares, hstore⟩
      refine (p2mrOutput_wp (S := S) lawful hprepares.stored entry).mono ?_ ?_
      · rintro output t' ⟨rfl, hprepares', hstore'⟩
        exact ⟨by rw [hstore], hprepares.trans hprepares', hstore'.trans hstore⟩
      · rintro e t' ⟨hprepares', rfl⟩
        exact ⟨hprepares.trans hprepares', .inr rfl⟩
    refine (Program.wp_mapM _ ⟨hread, rfl⟩ fun entry _ => hentry entry).mono ?_ fun _ _ hfailed => hfailed
    rintro _ w' ⟨rfl, hprepares, hstore⟩
    exact ⟨hprepares, hstore, rfl⟩

theorem mem_listed {utxos : PrevoutMap} {store : P2mrStore} {output : P2mrOutput} :
    output ∈ utxos.sortedRecords (P2mrOutput.ofEntry store) P2mrOutput.outpoint ↔
      utxos.lookup output.outpoint = some output.txout ∧
        output.isMine = (store.getBySpk output.txout.scriptPubkey).isSome := by
  rw [AList.mem_sortedRecords]
  constructor
  · rintro ⟨op, txout, hlookup, rfl⟩
    exact ⟨hlookup, rfl⟩
  · rintro ⟨hlookup, hmine⟩
    refine ⟨output.outpoint, output.txout, hlookup, ?_⟩
    cases output
    rw [P2mrOutput.ofEntry, ← hmine]

/-- At any time in the life of the wallet: the list names, in order and each once, the P2MR outputs that the
chain has created and not spent, and says of each whether the wallet has the key. -/
theorem listP2mrOutputs_unspent (lawful : json.Lawful) (hhashes : HonestHashes C headers)
    (hstart : start.Begins S json) (hempty : start.wallet.producer.store.dbs = .empty)
    (h : Lives headers S json isDust validator start actions chain)
    (hlist : listP2mrOutputs json (start.after S json isDust validator actions).wallet = (.ok outputs, w')) :
    (outputs.Pairwise fun a b => a.outpoint ≤ b.outpoint) ∧
    (outputs.map P2mrOutput.outpoint).Nodup ∧
    ∀ output, output ∈ outputs ↔ Unspent C (history chain) output.outpoint output.txout ∧
      output.isMine = ((w'.addresses json).getBySpk output.txout.scriptPubkey).isSome := by
  have htracked := h.tracked hhashes hempty
  have hstored : Stored json (start.after S json isDust validator actions).wallet :=
    (hstart.traced lawful actions).stored
  obtain ⟨-, hstore, rfl⟩ := (listP2mrOutputs_wp (S := S) lawful hstored).ok hlist
  refine ⟨AList.sortedRecords_sorted, AList.sortedRecords_nodup fun _ => rfl, fun output => ?_⟩
  rw [mem_listed, hstore, ← htracked.core.replay_eq_some_iff, ← htracked.utxos]

/-! A block that pays to the wallet, and a spend with change of one of the outputs. -/

theorem amountCrypto_honest : HonestHashes amountCrypto Validator.sampleHeaders :=
  ⟨Validator.sampleHeaders_honest.injective, Validator.sampleHeaders_honest.nonzero⟩

theorem prefetched_sampleValidator {utxos : PrevoutMap} {block : Block} :
    Validator.NoP2mr (Validator.sampleValidator.prefetchedPrevouts C utxos block) := by
  rw [Validator.prefetchedPrevouts]
  split
  · exact Validator.noP2mr_empty
  · exact Validator.noP2mr_empty

def fundedSession : Session amountCrypto := runSample [.connectBlock fundingBlock]

/-- What the wallet comes to when the definitions are run. -/
theorem changeSpend_sample :
    Pqc.CoreChain amountCrypto [fundingBlock] ∧
    (Validator.sampleValidator.connectBlock amountCrypto fundingBlock
      startSession.wallet.producer.store).1 = .ok .accept ∧
    (listP2mrOutputs P2mrFile.sampleJson fundedSession.wallet).1.isOk = true ∧
    (listP2mrOutputs P2mrFile.sampleJson (runSample changeSpend).wallet).1.isOk = true ∧
    (runSample changeSpend).wallet.producer.pending.transactions.length = 1 := by
  refine ⟨⟨?_, by decide, ?_⟩, by decide, by decide, by decide,
    by decide⟩
  · simp [fundingBlock, Validator.sampleCoinbase]
  · simp [fundingBlock, Validator.sampleCoinbase]

theorem fundingBlock_leads : Leads Validator.sampleHeaders Validator.sampleValidator startSession.wallet
    (.connectBlock fundingBlock) [] [fundingBlock] :=
  .connected (.inl rfl) changeSpend_sample.1 prefetched_sampleValidator changeSpend_sample.2.1

theorem changeSpend_lives : Lives Validator.sampleHeaders sampleSigners P2mrFile.sampleJson
    (fun _ _ => false) Validator.sampleValidator startSession changeSpend [fundingBlock] :=
  ((((((Lives.start.act fundingBlock_leads).act .spendP2mr).act .advance).act .advance).act
    .createP2mrAddress).act .advance).act .advance

theorem changeSpend_unspent : ∃ outputs w',
    listP2mrOutputs P2mrFile.sampleJson (runSample changeSpend).wallet = (.ok outputs, w') ∧
    ∀ output, output ∈ outputs ↔
      Unspent amountCrypto (history [fundingBlock]) output.outpoint output.txout ∧
      output.isMine =
        ((w'.addresses P2mrFile.sampleJson).getBySpk output.txout.scriptPubkey).isSome := by
  obtain ⟨-, -, -, hok, -⟩ := changeSpend_sample
  rcases hlist : listP2mrOutputs P2mrFile.sampleJson (runSample changeSpend).wallet with ⟨outcome, w'⟩
  rw [hlist] at hok
  cases outcome with
  | error e => cases hok
  | ok outputs =>
      exact ⟨outputs, w', rfl, (listP2mrOutputs_unspent P2mrFile.sampleJson_lawful amountCrypto_honest
        startSession_begins rfl changeSpend_lives hlist).2.2⟩

/-! ## The list and the spends after it -/

theorem after_quiet_dbs (hquiet : ∀ action ∈ actions, action.Quiet) :
    (s.after S json isDust validator actions).wallet.producer.store.dbs = s.wallet.producer.store.dbs := by
  induction actions generalizing s with
  | nil => rfl
  | cons action actions ih =>
      obtain ⟨hfirst, hrest⟩ := List.forall_mem_cons.mp hquiet
      exact (ih hrest).trans hfirst.dbs

theorem after_store (lawful : json.Lawful) (h : Stored json s.wallet) (actions : List Action) :
    Stored json (s.after S json isDust validator actions).wallet ∧
      Grows C S (s.wallet.addresses json)
        ((s.after S json isDust validator actions).wallet.addresses json) := by
  induction actions generalizing s with
  | nil => exact ⟨h, .refl _⟩
  | cons action actions ih =>
      have hacts : Acts S json isDust s (s.step S json isDust validator action) action := .step lawful h action
      obtain ⟨hstored, hgrows⟩ := ih hacts.stored
      exact ⟨hstored, hacts.store.trans hgrows⟩

variable {request : SpendRequest} {entropy : Option Bytes}

/-- What a spend comes to, by what is known of its output. -/
theorem spendP2mr_settles (lawful : json.Lawful) (h : Stored json w) :
    wp (spendP2mr S json isDust request entropy)
      (fun result w' => ∃ prevout record tx fee,
        w.producer.store.dbs.p2mrUtxos.lookup request.outpoint = some prevout ∧
        (w.addresses json).getBySpk prevout.scriptPubkey = some record ∧
        (result.txid, tx, fee) ∈ w'.producer.pending.spends.entries ∧
        Settles isDust (w'.addresses json) request prevout record.scheme tx fee)
      (fun e _ => e = .getP2mrUtxos .io ∨
        (w.producer.store.dbs.p2mrUtxos.lookup request.outpoint = none ∧
          e = .unknownUtxo request.outpoint) ∨
        ∃ prevout, w.producer.store.dbs.p2mrUtxos.lookup request.outpoint = some prevout ∧
          Refusal (C := C) S json isDust (w.addresses json) request entropy prevout e) w := by
  rw [spendP2mr, Program.wp_bind]
  apply (findPrevout_found (S := S) h).mono
  · rintro prevout w₁ ⟨hfound, hstore₁, hlookup⟩
    rw [Program.wp_bind]
    apply (planOwnSpend_planned (S := S) lawful hfound.stored entropy).mono
    · rintro ⟨record, plan⟩ w₂ ⟨hplanned, hstore₂, hown, hplan⟩
      rw [hstore₁] at hstore₂ hown
      rw [Program.wp_bind]
      apply (signSpend_settles lawful hplanned.stored isDust).mono
      · rintro spend w₃ ⟨-, hsettles⟩
        simp only [queueSpend, onProducer, BlockProducer.enqueueP2mrSpend, Program.wp_bind,
          Program.wp_focus, Program.wp_get, Program.wp_modify, Program.wp_pure]
        refine ⟨prevout, record, spend.tx, spend.actualFee, hlookup, hown, ?_, hsettles hplan⟩
        change _ ∈ (w₃.producer.pending.spends.insert (C.computeTxid spend.tx)
          (spend.tx, spend.actualFee)).entries
        rw [OrderMap.mem_insert]
        simp [PendingP2mrSpends.enqueueP2mrSpend]
      · rintro e w₃ ⟨-, source, rfl, hcause⟩
        rw [hstore₂] at hcause
        refine .inr (.inr ⟨prevout, hlookup, ?_⟩)
        rcases hcause with hcause | ⟨error, rfl⟩
        · exact .change hown hcause
        · exact .sign error hown
    · rintro e w₂ ⟨-, hrefusal⟩
      rw [hstore₁] at hrefusal
      exact .inr (.inr ⟨prevout, hlookup, hrefusal⟩)
  · rintro e w₁ ⟨-, rfl | ⟨hnone, rfl⟩⟩
    · exact .inl rfl
    · exact .inr (.inl ⟨hnone, rfl⟩)

theorem getBySpk_isSome_iff {store : P2mrStore} {spk : Script} :
    (store.getBySpk spk).isSome = true ↔ ∃ record ∈ store, record.scriptPubkey = spk := by
  rw [P2mrStore.getBySpk, List.find?_isSome]
  simp

/-- A key is not lost. -/
theorem getBySpk_grows {store store' : P2mrStore} {spk : Script} (hgrow : store ⊆ store')
    (h : (store.getBySpk spk).isSome = true) : (store'.getBySpk spk).isSome = true := by
  rw [getBySpk_isSome_iff] at h ⊢
  obtain ⟨record, hrecord, hspk⟩ := h
  exact ⟨record, hgrow hrecord, hspk⟩

theorem planSpend_ne_unknownUtxo {prevout : TxOut} {outpoint : OutPoint} :
    planSpend isDust request prevout ≠ .error (.unknownUtxo outpoint) := by
  rw [planSpend]
  intro h
  dsimp only at h
  split at h
  · cases h
  · split at h
    · cases h
    · split at h
      · cases h
      · split at h
        · cases h
        · cases h

/-- The file of the keys cannot be read or written, no entropy can be drawn, or a key cannot be made or
used. -/
def StoreFails (S : Signers) (json : P2mrJson) (w : Wallet C) (entropy : Option Bytes)
    (source : P2mrFileError) : Prop :=
  (∃ scheme, Cause C S json mildFaults (w.addresses json) (.create scheme entropy) source) ∨
    ∃ error, source = .store error

theorem storeFails_read : StoreFails S json w entropy (.read .io) := by
  have hmild : .fails 0 ∈ mildFaults := by
    rintro _ _ _ ⟨⟩
  exact .inl ⟨.schnorr, .read (.io hmild)⟩

section

variable {outcome : Except SpendP2mrError P2mrSpendOutcome} {final : Wallet C} {txout : TxOut}

/-- Only an output that is not there is called unknown. -/
theorem spendP2mr_unknown_iff (lawful : json.Lawful) (h : Stored json w)
    (hspend : spendP2mr S json isDust request entropy w = (outcome, final))
    (hio : outcome ≠ .error (.getP2mrUtxos .io)) :
    outcome = .error (.unknownUtxo request.outpoint) ↔
      w.producer.store.dbs.p2mrUtxos.lookup request.outpoint = none := by
  have hsettles : wp (spendP2mr S json isDust request entropy) _ _ w := spendP2mr_settles lawful h
  constructor
  · rintro rfl
    rcases hsettles.error hspend with hdb | ⟨hnone, -⟩ | ⟨prevout, -, hrefusal⟩
    · cases hdb
    · exact hnone
    · cases hrefusal with
      | plan _ fails => exact absurd fails planSpend_ne_unknownUtxo
  · intro habsent
    cases outcome with
    | ok result =>
        obtain ⟨prevout, -, -, -, hfound, -⟩ := hsettles.ok hspend
        rw [habsent] at hfound
        cases hfound
    | error e =>
        rcases hsettles.error hspend with rfl | ⟨-, rfl⟩ | ⟨prevout, hfound, -⟩
        · exact absurd rfl hio
        · rfl
        · rw [habsent] at hfound
          cases hfound

/-- A spend of an own output fails in the plan or in the store of keys, or is queued. -/
theorem spendP2mr_own (lawful : json.Lawful) (h : Stored json w)
    (hspend : spendP2mr S json isDust request entropy w = (outcome, final))
    (hio : outcome ≠ .error (.getP2mrUtxos .io))
    (hlookup : w.producer.store.dbs.p2mrUtxos.lookup request.outpoint = some txout)
    (hown : ((w.addresses json).getBySpk txout.scriptPubkey).isSome = true) :
    (∃ e, planSpend isDust request txout = .error e ∧ outcome = .error e) ∨
    (∃ source, StoreFails S json w entropy source ∧ outcome = .error (.store source)) ∨
    ∃ result scheme tx fee, outcome = .ok result ∧
      (result.txid, tx, fee) ∈ final.producer.pending.spends.entries ∧
      Settles isDust (final.addresses json) request txout scheme tx fee := by
  have hsettles : wp (spendP2mr S json isDust request entropy) _ _ w := spendP2mr_settles lawful h
  cases outcome with
  | ok result =>
      obtain ⟨prevout, record, tx, fee, hprevout, -, hqueued, hsettled⟩ := hsettles.ok hspend
      obtain rfl := Option.some.inj (hprevout.symm.trans hlookup)
      exact .inr (.inr ⟨result, record.scheme, tx, fee, rfl, hqueued, hsettled⟩)
  | error e =>
      rcases hsettles.error hspend with rfl | ⟨hnone, -⟩ | ⟨prevout, hfound, hrefusal⟩
      · exact absurd rfl hio
      · rw [hlookup] at hnone
        cases hnone
      · obtain rfl := Option.some.inj (hfound.symm.trans hlookup)
        cases hrefusal with
        | read => exact .inr (.inl ⟨_, storeFails_read, rfl⟩)
        | notOurs foreign =>
            rw [foreign] at hown
            cases hown
        | plan _ fails => exact .inl ⟨e, fails, rfl⟩
        | change _ cause => exact .inr (.inl ⟨_, .inl ⟨_, cause⟩, rfl⟩)
        | sign source _ => exact .inr (.inl ⟨_, .inr ⟨source, rfl⟩, rfl⟩)

theorem spendP2mr_foreign (lawful : json.Lawful) (h : Stored json w)
    (hspend : spendP2mr S json isDust request entropy w = (outcome, final))
    (hio : outcome ≠ .error (.getP2mrUtxos .io))
    (hlookup : w.producer.store.dbs.p2mrUtxos.lookup request.outpoint = some txout)
    (hforeign : (w.addresses json).getBySpk txout.scriptPubkey = none) :
    outcome = .error (.notOurs request.outpoint txout.scriptPubkey) ∨
      outcome = .error (.store (.read .io)) := by
  have hsettles : wp (spendP2mr S json isDust request entropy) _ _ w := spendP2mr_settles lawful h
  have hnotOwn : ∀ record, (w.addresses json).getBySpk txout.scriptPubkey ≠ some record := by
    intro record hown
    rw [hforeign] at hown
    cases hown
  cases outcome with
  | ok result =>
      obtain ⟨prevout, record, -, -, hprevout, hown, -⟩ := hsettles.ok hspend
      obtain rfl := Option.some.inj (hprevout.symm.trans hlookup)
      exact absurd hown (hnotOwn record)
  | error e =>
      rcases hsettles.error hspend with rfl | ⟨hnone, -⟩ | ⟨prevout, hfound, hrefusal⟩
      · exact absurd rfl hio
      · rw [hlookup] at hnone
        cases hnone
      · obtain rfl := Option.some.inj (hfound.symm.trans hlookup)
        cases hrefusal with
        | read => exact .inr rfl
        | notOurs _ => exact .inl rfl
        | plan own _ => exact absurd own (hnotOwn _)
        | change own _ => exact absurd own (hnotOwn _)
        | sign _ own => exact absurd own (hnotOwn _)

end

def firstSpend : List Action :=
  [.spendP2mr (payRequest 0 30 10), .advance 0 none, .advance 0 none,
    .advance 0 (some (List.replicate 32 9)), .advance 0 none]

/-- The session goes on from the list. -/
def spendingWallet (listed : Wallet amountCrypto) : Wallet amountCrypto :=
  (({ fundedSession with wallet := listed } : Session amountCrypto).after sampleSigners P2mrFile.sampleJson
    (fun _ _ => false) Validator.sampleValidator firstSpend).wallet

def answer (vout : UInt32) (amount fee : Amount) (listed : Wallet amountCrypto) :
    Except SpendP2mrError P2mrSpendOutcome × Wallet amountCrypto :=
  spendP2mr sampleSigners P2mrFile.sampleJson (fun _ _ => false) (payRequest vout amount fee) none
    (spendingWallet listed)

def sampleList : Except ListP2mrOutputsError (List P2mrOutput) × Wallet amountCrypto :=
  listP2mrOutputs P2mrFile.sampleJson fundedSession.wallet

/-- What the answers come to when the definitions are run. -/
theorem sampleList_answers :
    (sampleList.1.toOption.getD []).map
        (fun output => (output.outpoint, output.txout.scriptPubkey, output.isMine)) =
      [(⟨fundingTxid, 0⟩, schnorrSpk, true), (⟨fundingTxid, 1⟩, schnorrSpk, true),
        (⟨fundingTxid, 2⟩, foreignSpk, false)] ∧
    ((spendingWallet sampleList.2).addresses P2mrFile.sampleJson).getBySpk foreignSpk = none ∧
    (answer 1 50 10 sampleList.2).1.isOk = true ∧
    (answer 1 50 20 sampleList.2).1 = .error (.feeExceedsRemainder 50 20 60) ∧
    (answer 2 10 10 sampleList.2).1 = .error (.notOurs ⟨fundingTxid, 2⟩ foreignSpk) ∧
    (answer 3 10 10 sampleList.2).1 = .error (.unknownUtxo ⟨fundingTxid, 3⟩) := by
  decide

/-- All outputs but the first go to addresses of the store. -/
def ReturnsRest (store : P2mrStore) (tx : Transaction) : Prop :=
  ∀ vout txout, 0 < vout → tx.output[vout]? = some txout →
    ∃ record ∈ store, record.scriptPubkey = txout.scriptPubkey

theorem Settles.returnsRest {store : P2mrStore} {prevout : TxOut} {scheme : P2mrScheme} {tx : Transaction}
    {fee : Amount} (h : Settles isDust store request prevout scheme tx fee) : ReturnsRest store tx := by
  intro vout txout hpos hvout
  obtain ⟨change, houtput, hchange, -⟩ := h.pays
  cases vout with
  | zero => exact absurd hpos (Nat.lt_irrefl 0)
  | succ vout =>
      rw [houtput, List.getElem?_cons_succ] at hvout
      obtain ⟨record, hrecord, hspk, -⟩ := (hchange txout (List.mem_of_getElem? hvout)).own
      exact ⟨record, hrecord, hspk⟩

theorem mem_txOutputs_of_getElem? {tx : Transaction} {vout : Nat} {txout : TxOut}
    (h : tx.output[vout]? = some txout) :
    (⟨C.computeTxid tx, UInt32.ofNat vout⟩, txout) ∈ Pqc.txOutputs C tx :=
  List.mem_map.mpr ⟨(txout, vout), List.mem_zipIdx_iff_getElem?.mpr h, rfl⟩

/-- The change of a spend that was queued at some time comes back once the spend is mined: as long as the
chain does not spend it, the list has it as the wallet's own. -/
theorem minedChange_listed {earlier later : List Action} {txid : Txid} {tx : Transaction} {fee : Amount}
    {txout : TxOut} {vout : Nat} {before newer : List Transaction} (lawful : json.Lawful)
    (hhashes : HonestHashes C headers) (hC : Digests C) (hstart : start.Begins S json)
    (hempty : start.wallet.producer.store.dbs = .empty)
    (hqueued : (txid, tx, fee) ∈
      (start.after S json isDust validator earlier).wallet.producer.pending.spends.entries)
    (hlives : Lives headers S json isDust validator start (earlier ++ later) chain)
    (hmined : history chain = before ++ tx :: newer) (hpos : 0 < vout)
    (hvout : tx.output[vout]? = some txout)
    (hkept : ∀ spending ∈ newer, ∀ input ∈ spending.input,
      input.previousOutput ≠ ⟨C.computeTxid tx, UInt32.ofNat vout⟩)
    (hlist : listP2mrOutputs json (start.after S json isDust validator (earlier ++ later)).wallet =
      (.ok outputs, w')) :
    ⟨⟨C.computeTxid tx, UInt32.ofNat vout⟩, txout, true⟩ ∈ outputs := by
  have htraced : Traced S json isDust validator start (earlier ++ later) := hstart.traced lawful _
  have hqueue : Traced S json isDust validator start earlier := hstart.traced lawful _
  obtain ⟨request, prevout, record, -, hsettles⟩ := hqueue.queue txid tx fee hqueued
  obtain ⟨record, hrecord, hspk⟩ := hsettles.returnsRest vout txout hpos hvout
  have hstill : record ∈ (start.after S json isDust validator (earlier ++ later)).wallet.addresses json := by
    rw [Session.after_append]
    exact (after_store lawful hqueue.stored later).2.subset hrecord
  have hp2mr : isP2mr txout = true := by
    rw [isP2mr, ← hspk]
    exact mkOutput_isP2mr hC (htraced.store.built (hstart.stored lawful).2 record hstill)
  have htracked := hlives.tracked hhashes hempty
  obtain ⟨-, -, rfl⟩ := (listP2mrOutputs_wp (S := S) lawful htraced.stored).ok hlist
  rw [mem_listed]
  constructor
  · have hunspent : Unspent C (history chain) ⟨C.computeTxid tx, UInt32.ofNat vout⟩ txout :=
      ⟨before, tx, newer, hmined, mem_txOutputs_of_getElem? hvout, hp2mr, hkept⟩
    rw [← htracked.core.replay_eq_some_iff, ← htracked.utxos] at hunspent
    exact hunspent
  · exact (getBySpk_isSome_iff.mpr ⟨record, hstill, hspk⟩).symm

def changeTx : Transaction :=
  (runSample changeSpend).wallet.producer.pending.transactions.headD (Validator.sampleCoinbase 0 [])

def changeBlock : Block := ⟨Validator.child.header, [Validator.sampleCoinbase 1 [], changeTx]⟩

def minedSession : Session amountCrypto := runSample (changeSpend ++ [.connectBlock changeBlock])

theorem changeBlock_sample :
    Pqc.CoreChain amountCrypto [changeBlock, fundingBlock] ∧
    (Validator.sampleValidator.connectBlock amountCrypto changeBlock
      (runSample changeSpend).wallet.producer.store).1 = .ok .accept ∧
    (listP2mrOutputs P2mrFile.sampleJson minedSession.wallet).1.isOk = true ∧
    changeTx.output[1]?.map TxOut.value = some 10 :=
  ⟨⟨by decide, by decide, by decide⟩, by decide, by decide,
    by decide⟩

theorem changeBlock_leads : Leads Validator.sampleHeaders Validator.sampleValidator
    (runSample changeSpend).wallet (.connectBlock changeBlock) [fundingBlock] [changeBlock, fundingBlock] :=
  .connected (.inr rfl) changeBlock_sample.1 prefetched_sampleValidator changeBlock_sample.2.1

theorem amountCrypto_digests : Digests amountCrypto := ⟨sample_digests.tapSighash, sample_digests.p2mrLeafHash⟩

theorem changeTx_queued : ∃ txid fee,
    (txid, changeTx, fee) ∈ (runSample changeSpend).wallet.producer.pending.spends.entries := by
  obtain ⟨-, -, -, -, hone⟩ := changeSpend_sample
  obtain ⟨tx, htx⟩ := List.length_eq_one_iff.mp hone
  have hin : changeTx ∈ (runSample changeSpend).wallet.producer.pending.transactions := by
    rw [changeTx, htx]
    exact List.mem_singleton_self _
  obtain ⟨⟨tx, fee⟩, hspend, htx⟩ := List.mem_map.mp hin
  obtain ⟨⟨txid, spend⟩, hentry, rfl⟩ := List.mem_map.mp hspend
  exact ⟨txid, fee, htx ▸ hentry⟩

theorem changeTx_listed : ∃ outputs w' txout,
    listP2mrOutputs P2mrFile.sampleJson minedSession.wallet = (.ok outputs, w') ∧
    txout.value = 10 ∧ ⟨⟨amountCrypto.computeTxid changeTx, 1⟩, txout, true⟩ ∈ outputs := by
  obtain ⟨-, -, hok, hvalue⟩ := changeBlock_sample
  obtain ⟨txout, hvout, hten⟩ := Option.map_eq_some_iff.mp hvalue
  have hmined : history [changeBlock, fundingBlock] =
      (fundingBlock.txdata ++ [Validator.sampleCoinbase 1 []]) ++ changeTx :: [] := rfl
  obtain ⟨txid, fee, hqueued⟩ := changeTx_queued
  rcases hlist : listP2mrOutputs P2mrFile.sampleJson minedSession.wallet with ⟨outcome, w'⟩
  rw [hlist] at hok
  cases outcome with
  | error e => cases hok
  | ok outputs =>
      refine ⟨outputs, w', txout, rfl, hten, ?_⟩
      exact minedChange_listed P2mrFile.sampleJson_lawful amountCrypto_honest amountCrypto_digests
        startSession_begins rfl hqueued (changeSpend_lives.act changeBlock_leads) hmined Nat.one_pos hvout
        (fun _ hin => by cases hin) hlist

end Bip360Enforcer.Wallet
