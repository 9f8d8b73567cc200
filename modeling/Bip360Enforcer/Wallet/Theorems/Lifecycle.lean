import Bip360Enforcer.Wallet.Lemmas.Settles
import Bip360Enforcer.Wallet.P2mrOutputs
import Bip360Enforcer.Wallet.Theorems.Queue
import Bip360Enforcer.Validator.Theorems.Summary

/-!
# What becomes of the outputs that the wallet spends
-/

namespace Bip360Enforcer.Wallet

open Pqc (Signers)
open Program (wp)

variable {C : Crypto} {S : Signers} {json : P2mrJson} {isDust : Amount → Script → Bool}
  {validator : Validator} {w w' : Wallet C} {s s' start : Session C} {request : SpendRequest}
  {prevout : TxOut} {record : P2mrAddressRecord} {entropy : Option Bytes} {tx : Transaction} {fee : Amount}
  {action : Action} {actions : List Action}

/-! ## Sessions -/

/-- The process has come up: nothing has been asked for, earlier calls have left the keys in their file, and
the machine does not crash from here on. -/
structure Session.Begins (S : Signers) (json : P2mrJson) (s : Session C) : Prop where
  pending : s.wallet.producer.pending = .empty
  calls : s.calls = []
  disk : ∃ events, s.wallet.disk.fs = (P2mrFile.run C S json events .empty).2
  alive : s.wallet.disk.Within mildFaults

theorem Session.Begins.stored (lawful : json.Lawful) (h : s.Begins S json) :
    Stored json s.wallet ∧ ∀ record ∈ s.wallet.addresses json, P2mrFile.Built C S record := by
  obtain ⟨events, hdisk⟩ := h.disk
  exact Stored.of_run lawful hdisk h.alive

/-! ## One action -/

/-- Where a call has come to its stage from. -/
inductive Origin (json : P2mrJson) (isDust : Amount → Script → Bool) (s s' : Session C) (action : Action) :
    CallStage → Prop where
  | kept {stage : CallStage} (mem : stage ∈ s.calls) : Origin json isDust s s' action stage
  | found {request : SpendRequest} {prevout : TxOut} (asked : action = .spendP2mr request)
      (unspent : s.wallet.producer.store.dbs.p2mrUtxos.lookup request.outpoint = some prevout) :
      Origin json isDust s s' action (.found request prevout)
  | planned {request : SpendRequest} {prevout : TxOut} {record : P2mrAddressRecord} {plan : SpendPlan}
      (mem : .found request prevout ∈ s.calls)
      (own : (s.wallet.addresses json).getBySpk prevout.scriptPubkey = some record)
      (divided : planSpend isDust request prevout = .ok plan) :
      Origin json isDust s s' action (.planned request prevout record plan)
  | prepared {request : SpendRequest} {prevout : TxOut} {record : P2mrAddressRecord} {plan : SpendPlan}
      {spend : PreparedSpend} (mem : .planned request prevout record plan ∈ s.calls)
      (settles : planSpend isDust request prevout = .ok plan →
        Settles isDust (s'.wallet.addresses json) request prevout record.scheme spend.tx spend.actualFee) :
      Origin json isDust s s' action (.prepared spend)
  | accepted {block : Block} : Origin json isDust s s' action (.accepted block)

/-- What an action does to the store of keys, to the queue and to the calls. -/
structure Acts (S : Signers) (json : P2mrJson) (isDust : Amount → Script → Bool) (s s' : Session C)
    (action : Action) : Prop where
  store : Grows C S (s.wallet.addresses json) (s'.wallet.addresses json)
  stored : Stored json s'.wallet
  queue : ∀ txid tx fee, (txid, tx, fee) ∈ s'.wallet.producer.pending.spends.entries →
    (txid, tx, fee) ∈ s.wallet.producer.pending.spends.entries ∨
    ∃ spend, .prepared spend ∈ s.calls ∧ tx = spend.tx ∧ fee = spend.actualFee
  calls : ∀ stage ∈ s'.calls, Origin json isDust s s' action stage

namespace Acts

/-- Where nothing new is queued. -/
theorem of_prepares (h : Prepares S json s.wallet s'.wallet)
    (hcalls : ∀ stage ∈ s'.calls, Origin json isDust s s' action stage) :
    Acts S json isDust s s' action := by
  refine ⟨h.store, h.stored, fun _ _ _ hentry => .inl ?_, hcalls⟩
  rwa [h.pending] at hentry

/-- A call to the block producer that queues nothing. -/
theorem of_producer {producer : BlockProducer C} {calls : List CallStage} (h : Stored json s.wallet)
    (hqueue : ∀ entry ∈ producer.pending.spends.entries, entry ∈ s.wallet.producer.pending.spends.entries)
    (hcalls : ∀ stage ∈ calls,
      Origin json isDust s ⟨{ s.wallet with producer := producer }, calls⟩ action stage) :
    Acts S json isDust s ⟨{ s.wallet with producer := producer }, calls⟩ action where
  store := .refl _
  stored := h.congr rfl
  queue _ _ _ hentry := .inl (hqueue _ hentry)
  calls := hcalls

theorem onStore {ε α : Type} {x : Validator.Db ε α} (h : Stored json s.wallet) :
    Acts S json isDust s (s.onWallet (Wallet.onProducer (BlockProducer.onStore x))) action :=
  .of_producer h (fun _ hentry => hentry) fun _ hin => .kept hin

theorem beginConnect {block : Block} (h : Stored json s.wallet) :
    Acts S json isDust s (s.beginConnect validator block) action := by
  simp only [Session.beginConnect, Wallet.onProducer, BlockProducer.connectBlockValidator,
    BlockProducer.onStore, Program.focus]
  rcases validator.connectBlock C block s.wallet.producer.store with ⟨_ | answer, t⟩
  · exact .of_producer h (fun _ hentry => hentry) fun _ hin => .kept hin
  · cases answer with
    | reject => exact .of_producer h (fun _ hentry => hentry) fun _ hin => .kept hin
    | accept =>
        refine .of_producer h (fun _ hentry => hentry) fun stage hin => ?_
        rcases List.mem_append.mp hin with hin | hin
        · exact .kept hin
        · obtain rfl := List.mem_singleton.mp hin
          exact .accepted

theorem beginSpend (h : Stored json s.wallet) :
    Acts S json isDust s (s.beginSpend request) (.spendP2mr request) := by
  have hfound : wp (findPrevout request) _ _ s.wallet := findPrevout_found (S := S) h
  rw [Session.beginSpend]
  rcases hrun : findPrevout request s.wallet with ⟨outcome, wallet⟩
  cases outcome with
  | error e => exact .of_prepares (hfound.error hrun).1 fun _ hin => .kept hin
  | ok prevout =>
      obtain ⟨hprepares, -, hlookup⟩ := hfound.ok hrun
      refine .of_prepares hprepares fun stage hin => ?_
      rcases List.mem_append.mp hin with hin | hin
      · exact .kept hin
      · obtain rfl := List.mem_singleton.mp hin
        exact .found rfl hlookup

theorem advance {n : Nat} (lawful : json.Lawful) (h : Stored json s.wallet) :
    Acts S json isDust s (s.advance S json isDust n entropy) (.advance n entropy) := by
  rw [Session.advance]
  cases hget : s.calls[n]? with
  | none => exact .of_prepares (.refl h) fun _ hin => .kept hin
  | some stage =>
      have hmem : stage ∈ s.calls := List.mem_of_getElem? hget
      have hrest : ∀ other ∈ s.calls.eraseIdx n, other ∈ s.calls := fun _ => List.mem_of_mem_eraseIdx
      dsimp only
      cases stage with
      | found request prevout =>
          have hplanned : wp (planOwnSpend json isDust request prevout) _ _ s.wallet :=
            planOwnSpend_planned (S := S) lawful h entropy
          rw [CallStage.advance, Program.bind_apply]
          rcases hrun : planOwnSpend json isDust request prevout s.wallet with ⟨_ | ⟨record, plan⟩, wallet⟩
          · exact .of_prepares (hplanned.error hrun).1 fun _ hin => .kept (hrest _ hin)
          · obtain ⟨hprepares, -, hown, hplan⟩ := hplanned.ok hrun
            refine .of_prepares hprepares fun stage hin => ?_
            rcases List.mem_or_eq_of_mem_set hin with hin | rfl
            · exact .kept hin
            · exact .planned hmem hown hplan
      | planned request prevout record plan =>
          have hsigned : wp (signSpend S json request prevout record plan entropy) _ _ s.wallet :=
            signSpend_settles lawful h isDust
          rw [CallStage.advance, Program.bind_apply]
          rcases hrun : signSpend S json request prevout record plan entropy s.wallet with ⟨_ | spend, wallet⟩
          · exact .of_prepares (hsigned.error hrun).1 fun _ hin => .kept (hrest _ hin)
          · obtain ⟨hprepares, hsettles⟩ := hsigned.ok hrun
            refine .of_prepares hprepares fun stage hin => ?_
            rcases List.mem_or_eq_of_mem_set hin with hin | rfl
            · exact .kept hin
            · exact .prepared hmem hsettles
      | prepared spend =>
          refine ⟨.refl _, h.congr rfl, fun txid tx fee hentry => ?_, fun _ hin => .kept (hrest _ hin)⟩
          have hinsert : (txid, tx, fee) ∈ (s.wallet.producer.pending.spends.insert
              (C.computeTxid spend.tx) (spend.tx, spend.actualFee)).entries := hentry
          rw [OrderMap.mem_insert] at hinsert
          split at hinsert
          · cases hinsert
            exact .inr ⟨spend, hmem, rfl, rfl⟩
          · exact .inl hinsert
      | accepted block =>
          refine .of_producer h ?_ fun _ hin => .kept (hrest _ hin)
          rintro ⟨txid, spend⟩ hentry
          have hreaped : (txid, spend) ∈
              (s.wallet.producer.pending.reapConfirmedP2mrSpends block).spends.entries := hentry
          unfold PendingP2mrSpends.reapConfirmedP2mrSpends at hreaped
          split at hreaped
          · exact hreaped
          · exact ((OrderMap.mem_swapRemove_all _).mp hreaped).2

theorem step (lawful : json.Lawful) (h : Stored json s.wallet) (action : Action) :
    Acts S json isDust s (s.step S json isDust validator action) action := by
  cases action with
  | createP2mrAddress scheme entropy =>
      have hprepares : Prepares S json s.wallet (createP2mrAddress S json scheme entropy s.wallet).2 :=
        wp.either ((createP2mrAddress_wp lawful h).mono (fun _ _ h => h.1) fun _ _ h => h.1) rfl
      exact .of_prepares hprepares fun _ hin => .kept hin
  | spendP2mr request => exact .beginSpend h
  | connectBlock block => exact .beginConnect h
  | advance n entropy => exact .advance lawful h
  | disconnectBlock _ => exact .onStore h
  | syncConnectBlock _ => exact .onStore h
  | syncDisconnectBlock _ => exact .onStore h

end Acts

/-! ## Runs -/

/-- A call of the run has found the output unspent when it was made, and its key afterwards. -/
def Owned (S : Signers) (json : P2mrJson) (isDust : Amount → Script → Bool) (validator : Validator)
    (start : Session C) (actions : List Action) (request : SpendRequest) (prevout : TxOut)
    (record : P2mrAddressRecord) : Prop :=
  ∃ earlier middle later, actions = earlier ++ .spendP2mr request :: (middle ++ later) ∧
    (start.after S json isDust validator earlier).wallet.producer.store.dbs.p2mrUtxos.lookup
      request.outpoint = some prevout ∧
    ((start.after S json isDust validator (earlier ++ .spendP2mr request :: middle)).wallet.addresses
      json).getBySpk prevout.scriptPubkey = some record

/-- The transaction spends an output that was the wallet's own, and settles the request. -/
def PaidFrom (S : Signers) (json : P2mrJson) (isDust : Amount → Script → Bool) (validator : Validator)
    (start : Session C) (actions : List Action) (tx : Transaction) (fee : Amount) : Prop :=
  ∃ request prevout record, Owned S json isDust validator start actions request prevout record ∧
    Settles isDust ((start.after S json isDust validator actions).wallet.addresses json) request prevout
      record.scheme tx fee

theorem Owned.later (h : Owned S json isDust validator start actions request prevout record) :
    Owned S json isDust validator start (actions ++ [action]) request prevout record := by
  obtain ⟨earlier, middle, later, rfl, hlookup, hown⟩ := h
  exact ⟨earlier, middle, later ++ [action], by simp, hlookup, hown⟩

theorem PaidFrom.later (h : PaidFrom S json isDust validator start actions tx fee)
    (hgrow : (start.after S json isDust validator actions).wallet.addresses json ⊆
      (start.after S json isDust validator (actions ++ [action])).wallet.addresses json) :
    PaidFrom S json isDust validator start (actions ++ [action]) tx fee := by
  obtain ⟨request, prevout, record, howned, hsettles⟩ := h
  exact ⟨request, prevout, record, howned.later, hsettles.grow hgrow⟩

/-- What the stage of a call tells of the run. -/
def CallStage.Traced (S : Signers) (json : P2mrJson) (isDust : Amount → Script → Bool)
    (validator : Validator) (start : Session C) (actions : List Action) : CallStage → Prop
  | found request prevout => ∃ earlier later, actions = earlier ++ .spendP2mr request :: later ∧
      (start.after S json isDust validator earlier).wallet.producer.store.dbs.p2mrUtxos.lookup
        request.outpoint = some prevout
  | planned request prevout record plan =>
      Owned S json isDust validator start actions request prevout record ∧
        planSpend isDust request prevout = .ok plan
  | prepared spend => PaidFrom S json isDust validator start actions spend.tx spend.actualFee
  | accepted _ => True

theorem CallStage.Traced.later {stage : CallStage}
    (h : stage.Traced S json isDust validator start actions)
    (hgrow : (start.after S json isDust validator actions).wallet.addresses json ⊆
      (start.after S json isDust validator (actions ++ [action])).wallet.addresses json) :
    stage.Traced S json isDust validator start (actions ++ [action]) := by
  cases stage with
  | found request prevout =>
      obtain ⟨earlier, later, rfl, hlookup⟩ := h
      exact ⟨earlier, later ++ [action], by simp, hlookup⟩
  | planned request prevout record plan => exact ⟨h.1.later, h.2⟩
  | prepared spend => exact PaidFrom.later h hgrow
  | accepted block => trivial

/-- What a run has led to. -/
structure Traced (S : Signers) (json : P2mrJson) (isDust : Amount → Script → Bool) (validator : Validator)
    (start : Session C) (actions : List Action) : Prop where
  stored : Stored json (start.after S json isDust validator actions).wallet
  store : Grows C S (start.wallet.addresses json)
    ((start.after S json isDust validator actions).wallet.addresses json)
  queue : ∀ txid tx fee,
    (txid, tx, fee) ∈ (start.after S json isDust validator actions).wallet.producer.pending.spends.entries →
    PaidFrom S json isDust validator start actions tx fee
  calls : ∀ stage ∈ (start.after S json isDust validator actions).calls,
    stage.Traced S json isDust validator start actions

theorem Traced.act (lawful : json.Lawful) (h : Traced S json isDust validator start actions)
    (action : Action) : Traced S json isDust validator start (actions ++ [action]) := by
  have hacts : Acts S json isDust (start.after S json isDust validator actions)
      (start.after S json isDust validator (actions ++ [action])) action := by
    rw [Session.after_concat]
    exact .step lawful h.stored action
  have hgrow := hacts.store.subset
  refine ⟨hacts.stored, h.store.trans hacts.store, fun txid tx fee hentry => ?_, fun stage hin => ?_⟩
  · rcases hacts.queue txid tx fee hentry with hold | ⟨spend, hspend, rfl, rfl⟩
    · exact (h.queue txid tx fee hold).later hgrow
    · exact PaidFrom.later (h.calls _ hspend) hgrow
  · cases hacts.calls stage hin with
    | kept mem => exact (h.calls stage mem).later hgrow
    | found asked unspent => exact ⟨actions, [], by rw [asked], unspent⟩
    | planned mem own divided =>
        obtain ⟨earlier, middle, rfl, hlookup⟩ := h.calls _ mem
        exact ⟨⟨earlier, middle, [action], by simp, hlookup, own⟩, divided⟩
    | prepared mem settles =>
        obtain ⟨howned, hplan⟩ := h.calls _ mem
        exact ⟨_, _, _, howned.later, settles hplan⟩
    | accepted => trivial

theorem Session.Begins.traced (lawful : json.Lawful) (h : start.Begins S json) (actions : List Action) :
    Traced S json isDust validator start actions := by
  induction actions using List.reverseRecOn with
  | nil =>
      refine ⟨(h.stored lawful).1, .refl _, fun txid tx fee hentry => ?_, fun stage hin => ?_⟩
      · have hnone : (txid, tx, fee) ∈ start.wallet.producer.pending.spends.entries := hentry
        rw [h.pending] at hnone
        cases hnone
      · have hnone : stage ∈ start.calls := hin
        rw [h.calls] at hnone
        cases hnone
  | append_singleton actions action ih => exact ih.act lawful action

/-- Whatever else happens in between, all that is queued stems from calls of the run. -/
theorem queued_paidFrom (lawful : json.Lawful) (hstart : start.Begins S json) (actions : List Action)
    {txid : Txid}
    (hentry : (txid, tx, fee) ∈
      (start.after S json isDust validator actions).wallet.producer.pending.spends.entries) :
    PaidFrom S json isDust validator start actions tx fee :=
  (hstart.traced lawful actions).queue txid tx fee hentry

/-! A spend with change, and an address that is made in the meantime. -/

def changeSpend : List Action :=
  [.connectBlock fundingBlock, .spendP2mr (payRequest 0 30 10), .advance 0 none, .advance 0 none,
    .createP2mrAddress .schnorr (some (List.replicate 32 8)), .advance 0 (some (List.replicate 32 9)),
    .advance 0 none]

theorem startSession_begins : startSession.Begins sampleSigners P2mrFile.sampleJson where
  pending := rfl
  calls := rfl
  disk := ⟨_, rfl⟩
  alive _ _ _ _ h := by cases h

theorem changeSpend_paidFrom : ∃ tx, tx.output.length = 2 ∧
    PaidFrom sampleSigners P2mrFile.sampleJson (fun _ _ => false) Validator.sampleValidator startSession
      changeSpend tx 10 := by
  have hqueue : (runSample changeSpend).wallet.producer.pending.spends.entries.map
      (fun entry => (entry.2.1.output.length, entry.2.2)) = [(2, 10)] := by
    decide
  obtain ⟨⟨txid, tx, fee⟩, hentries, hentry⟩ := List.map_eq_singleton_iff.mp hqueue
  obtain ⟨htwo, hfee⟩ := Prod.mk.inj hentry
  change fee = 10 at hfee
  subst hfee
  have hin : (txid, tx, 10) ∈ (runSample changeSpend).wallet.producer.pending.spends.entries := by
    rw [hentries]
    exact List.mem_singleton_self _
  exact ⟨tx, htwo, queued_paidFrom P2mrFile.sampleJson_lawful startSession_begins changeSpend hin⟩

end Bip360Enforcer.Wallet
