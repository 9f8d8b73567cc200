import Bip360Enforcer.Pqc.Lemmas.Signer
import Bip360Enforcer.Validator.Theorems.Events
import Bip360Enforcer.Wallet.Theorems.Lifecycle

/-!
# The chain that the wallet's actions lead to
-/

namespace Bip360Enforcer

open Pqc (CoreChain Signers isP2mrScript)
open Program (wp)
open Validator (HonestHashes NoP2mr Tracked hashesOf)

variable {C : Crypto} {headers : Set Header} {chain chain' : List Block} {validator : Validator}
  {block : Block}

/-! ## Databases -/

namespace Validator

variable {dbs dbs' : Dbs} {header : Header} {extra : PrevoutMap} {event : Event} {u v : Store}

theorem Tracked.stored (h : Tracked C headers dbs chain) (hhashes : HonestHashes C headers)
    (hknown : header ∈ headers) (hstored : HeaderStored C header dbs dbs') :
    Tracked C headers dbs' chain := by
  cases hstored with
  | kept => exact h
  | added => exact h.moreHeaders (putHeader_moreHeaders hhashes h.indexed.keyed hknown)

theorem Tracked.connected {handler : BlockHandler} {s t : Store} (h : Tracked C headers s.dbs chain)
    (hhashes : HonestHashes C headers) (hknown : block.header ∈ headers)
    (hcore : CoreChain C (block :: chain)) (hextra : NoP2mr handler.extraPrevouts)
    (hrun : handler.connectBlock C block s = (.ok event, t)) : Tracked C headers t.dbs (block :: chain) := by
  obtain ⟨-, height, coinbase, txs, diff, header, work, hconnects, -⟩ :=
    (connectBlock_spec fun _ h => h).ok hrun
  exact h.connect hhashes hknown hcore hextra hconnects

/-- The tip of a tracked chain can be undone, so that it is not ignored. -/
theorem Tracked.disconnected (h : Tracked C headers dbs (block :: chain))
    (hundone : (dbs.diff.lookup (C.blockHash block.header) = none ∧ dbs' = dbs) ∨
      ∃ diff header, Disconnects (C.blockHash block.header) dbs dbs' diff header) :
    Tracked C headers dbs' chain := by
  rcases hundone with ⟨hnone, -⟩ | ⟨diff, header, hdisconnects⟩
  · obtain ⟨diff, hdiff, -⟩ := h.diffs block chain (List.suffix_refl _)
    rw [hnone] at hdiff
    cases hdiff
  · exact h.disconnect hdisconnects

theorem noP2mr_empty : NoP2mr ∅ := by
  intro op txout h
  cases h

theorem connectBlock_tracked {s : Store} (h : Tracked C headers s.dbs chain)
    (hhashes : HonestHashes C headers) (hknown : block.header ∈ headers) :
    wp (validator.connectBlock C block)
      (fun action t => match action with
        | .accept => CoreChain C (block :: chain) →
            NoP2mr (validator.prefetchedPrevouts C s.dbs.p2mrUtxos block) →
            Tracked C headers t.dbs (block :: chain)
        | .reject => Tracked C headers t.dbs chain)
      (fun _ t => Tracked C headers t.dbs chain) s := by
  apply connectBlock_wp.mono
  · rintro action t ⟨extra, hextra, -, -, hpost⟩
    cases action with
    | accept =>
        obtain ⟨event, u, v, haccepted, -⟩ := hpost
        intro hcore hprefetched
        have hno : NoP2mr extra := by
          rcases hextra with rfl | rfl
          · exact noP2mr_empty
          · exact hprefetched
        rw [haccepted.result]
        have hstored := h.stored hhashes hknown haccepted.header
        have hextra' : NoP2mr (validator.handler extra).extraPrevouts := hno
        exact hstored.connected hhashes hknown hcore hextra' haccepted.run
    | reject => exact h.stored hhashes hknown hpost.1
  · rintro e t ⟨-, -, hdbs, -, -⟩
    exact hdbs ▸ h

theorem syncConnectBlock_tracked {s : Store} (h : Tracked C headers s.dbs chain)
    (hhashes : HonestHashes C headers) (hknown : block.header ∈ headers) :
    wp (transaction ((validator.handler ∅).connectBlock C block))
      (fun _ t => CoreChain C (block :: chain) → Tracked C headers t.dbs (block :: chain))
      (fun _ t => Tracked C headers t.dbs chain) s := by
  apply wp_transaction
  · intro _
    exact h
  · apply (Program.wp_self _ _).mono
    · intro event t hrun hcore
      have hbegin : Tracked C headers s.next.begin.dbs chain := h
      have ht : Tracked C headers t.dbs (block :: chain) :=
        hbegin.connected hhashes hknown hcore noP2mr_empty hrun
      exact ht
    · intro e t _
      exact h

theorem disconnectBlock_tracked {s : Store} (h : Tracked C headers s.dbs (block :: chain)) :
    wp (Validator.disconnectBlock C (C.blockHash block.header))
      (fun _ t => Tracked C headers t.dbs chain) (fun _ t => t.dbs = s.dbs) s := by
  apply disconnectBlock_live_wp.mono
  · rintro _ t ⟨-, -, hundone⟩
    apply h.disconnected
    rcases hundone with ⟨hnone, hdbs, -⟩ | ⟨diff, header, hdisconnects, -⟩
    · exact .inl ⟨hnone, hdbs⟩
    · exact .inr ⟨diff, header, hdisconnects⟩
  · rintro e t ⟨-, -, hdbs, -⟩
    exact hdbs

theorem syncDisconnectBlock_tracked {s : Store} (h : Tracked C headers s.dbs (block :: chain)) :
    wp (transaction (BlockHandler.disconnectBlock C (C.blockHash block.header)))
      (fun _ t => Tracked C headers t.dbs chain) (fun _ t => t.dbs = s.dbs) s := by
  apply wp_transaction
  · intro _
    rfl
  · apply disconnectBlock_wp.mono
    · rintro _ t hundone
      apply h.disconnected
      rcases hundone with ⟨hnone, -, hdbs⟩ | ⟨diff, header, u, hdisconnects, -, rfl⟩
      · exact .inl ⟨hnone, hdbs⟩
      · exact .inr ⟨diff, header, hdisconnects⟩
    · intro e t _
      rfl

end Validator

/-! ## Actions -/

namespace Wallet

variable {S : Signers} {json : P2mrJson} {isDust : Amount → Script → Bool} {w w' : Wallet C}
  {s start : Session C} {actions : List Action}

/-- What an action makes of the chain, by how it comes out. -/
inductive Leads (headers : Set Header) (validator : Validator) (w : Wallet C) :
    Action → List Block → List Block → Prop where
  | createP2mrAddress {chain : List Block} {scheme : P2mrScheme} {entropy : Option Bytes} :
      Leads headers validator w (.createP2mrAddress scheme entropy) chain chain
  | spendP2mr {chain : List Block} {request : SpendRequest} :
      Leads headers validator w (.spendP2mr request) chain chain
  | advance {chain : List Block} {n : Nat} {entropy : Option Bytes} :
      Leads headers validator w (.advance n entropy) chain chain
  | connected {chain : List Block} {block : Block} (known : block.header ∈ headers)
      (core : CoreChain C (block :: chain))
      (extra : NoP2mr (validator.prefetchedPrevouts C w.producer.store.dbs.p2mrUtxos block))
      (accepted : (validator.connectBlock C block w.producer.store).1 = .ok .accept) :
      Leads headers validator w (.connectBlock block) chain (block :: chain)
  | refused {chain : List Block} {block : Block} (known : block.header ∈ headers)
      (refused : (validator.connectBlock C block w.producer.store).1 ≠ .ok .accept) :
      Leads headers validator w (.connectBlock block) chain chain
  | disconnected {chain : List Block} {block : Block}
      (undone : (Validator.disconnectBlock C (C.blockHash block.header) w.producer.store).1.isOk = true) :
      Leads headers validator w (.disconnectBlock (C.blockHash block.header)) (block :: chain) chain
  | stuck {chain : List Block} {block : Block}
      (failed : (Validator.disconnectBlock C (C.blockHash block.header) w.producer.store).1.isOk = false) :
      Leads headers validator w (.disconnectBlock (C.blockHash block.header)) (block :: chain)
        (block :: chain)
  | synced {chain : List Block} {block : Block} (known : block.header ∈ headers)
      (core : CoreChain C (block :: chain))
      (accepted : (BlockProducer.syncConnectBlock validator block w.producer).1.isOk = true) :
      Leads headers validator w (.syncConnectBlock block) chain (block :: chain)
  | unsynced {chain : List Block} {block : Block} (known : block.header ∈ headers)
      (refused : (BlockProducer.syncConnectBlock validator block w.producer).1.isOk = false) :
      Leads headers validator w (.syncConnectBlock block) chain chain
  | rewound {chain : List Block} {block : Block}
      (undone : (BlockProducer.syncDisconnectBlock (C.blockHash block.header) w.producer).1.isOk = true) :
      Leads headers validator w (.syncDisconnectBlock (C.blockHash block.header)) (block :: chain) chain
  | jammed {chain : List Block} {block : Block}
      (failed : (BlockProducer.syncDisconnectBlock (C.blockHash block.header) w.producer).1.isOk = false) :
      Leads headers validator w (.syncDisconnectBlock (C.blockHash block.header)) (block :: chain)
        (block :: chain)

theorem store_beginConnect :
    (s.beginConnect validator block).wallet.producer.store =
      (validator.connectBlock C block s.wallet.producer.store).2 := by
  simp only [Session.beginConnect, onProducer, BlockProducer.connectBlockValidator, BlockProducer.onStore,
    Program.focus]
  rcases validator.connectBlock C block s.wallet.producer.store with ⟨outcome, t⟩
  cases outcome with
  | error e => rfl
  | ok action =>
      cases action with
      | accept => rfl
      | reject => rfl

theorem syncConnectBlock_producer (h : Tracked C headers w.producer.store.dbs chain)
    (hhashes : HonestHashes C headers) (hknown : block.header ∈ headers) :
    wp (BlockProducer.syncConnectBlock validator block)
      (fun _ producer => CoreChain C (block :: chain) →
        Tracked C headers producer.store.dbs (block :: chain))
      (fun _ producer => Tracked C headers producer.store.dbs chain) w.producer := by
  simp only [BlockProducer.syncConnectBlock, BlockProducer.onStore, Program.wp_focus, Program.wp_bind]
  apply (Validator.syncConnectBlock_tracked h hhashes hknown).mono
  · intro event t ht
    exact ht
  · intro e t ht
    exact ht

/-- No block comes in: an address is made, a spend is asked for, or a call goes on. -/
def Action.Quiet : Action → Prop
  | createP2mrAddress _ _ => True
  | spendP2mr _ => True
  | advance _ _ => True
  | connectBlock _ => False
  | disconnectBlock _ => False
  | syncConnectBlock _ => False
  | syncDisconnectBlock _ => False

theorem findPrevout_dbs {request : SpendRequest} :
    wp (findPrevout request) (fun _ w' => w'.producer.store.dbs = w.producer.store.dbs)
      (fun _ w' => w'.producer.store.dbs = w.producer.store.dbs) w := by
  simp only [findPrevout, onProducer, BlockProducer.getP2mrUtxo, BlockProducer.onStore, Program.wp_focus,
    Program.wp_mapError, Program.wp_bind, Validator.wp_read, Program.wp_pure]
  refine ⟨fun _ => rfl, fun _ => ?_⟩
  cases w.producer.store.dbs.p2mrUtxos.lookup request.outpoint with
  | none => rfl
  | some prevout => rfl

theorem onP2mrStore_dbs {α ε : Type} {f : P2mrFileError → ε} {x : P2mrM α} :
    wp (Program.mapError f (onP2mrStore x)) (fun _ w' => w'.producer.store.dbs = w.producer.store.dbs)
      (fun _ w' => w'.producer.store.dbs = w.producer.store.dbs) w := by
  rw [Program.wp_mapError]
  apply onP2mrStore_producer.mono
  · exact fun _ _ h => congrArg (fun producer => producer.store.dbs) h
  · exact fun _ _ h => congrArg (fun producer => producer.store.dbs) h

theorem CallStage.advance_dbs {stage : CallStage} {entropy : Option Bytes} :
    wp (stage.advance S json isDust entropy) (fun _ w' => w'.producer.store.dbs = w.producer.store.dbs)
      (fun _ w' => w'.producer.store.dbs = w.producer.store.dbs) w := by
  cases stage with
  | found request prevout =>
      rw [advance, planOwnSpend, Program.wp_bind, Program.wp_bind]
      apply onP2mrStore_dbs.mono
      · intro found w' hdbs
        cases found with
        | none => exact hdbs
        | some record =>
            rw [Program.wp_bind, Program.wp_ofExcept]
            exact ⟨fun _ _ => hdbs, fun _ _ => hdbs⟩
      · exact fun _ _ hdbs => hdbs
  | planned request prevout record plan =>
      rw [advance, signSpend, Program.wp_bind, Program.wp_bind, spendOutputs]
      cases plan.change with
      | none =>
          simp only [Program.wp_pure, Program.wp_bind, Program.wp_ofExcept, implies_true, and_self]
      | some change =>
          rw [Program.wp_bind]
          apply onP2mrStore_dbs.mono
          · intro record w' hdbs
            simp only [Program.wp_pure, Program.wp_bind, Program.wp_ofExcept]
            exact ⟨fun _ _ => hdbs, fun _ _ => hdbs⟩
          · exact fun _ _ hdbs => hdbs
  | prepared spend =>
      simp only [advance, queueSpend, onProducer, BlockProducer.enqueueP2mrSpend, Program.wp_bind,
        Program.wp_focus, Program.wp_get, Program.wp_modify, Program.wp_pure]
  | accepted block =>
      simp only [advance, onProducer, BlockProducer.reapConfirmedP2mrSpends, Program.wp_bind,
        Program.wp_focus, Program.wp_modify, Program.wp_pure]

theorem Action.Quiet.dbs {action : Action} (h : action.Quiet) :
    (s.step S json isDust validator action).wallet.producer.store.dbs = s.wallet.producer.store.dbs := by
  cases action with
  | createP2mrAddress scheme entropy => rfl
  | spendP2mr request =>
      change (s.beginSpend request).wallet.producer.store.dbs = _
      rw [Session.beginSpend]
      rcases hrun : findPrevout request s.wallet with ⟨outcome, wallet⟩
      have hdbs := findPrevout_dbs.either hrun
      cases outcome with
      | error e => exact hdbs
      | ok prevout => exact hdbs
  | advance n entropy =>
      change (s.advance S json isDust n entropy).wallet.producer.store.dbs = _
      rw [Session.advance]
      cases s.calls[n]? with
      | none => rfl
      | some stage =>
          dsimp only
          rcases hrun : stage.advance S json isDust entropy s.wallet with ⟨outcome, wallet⟩
          have hdbs := CallStage.advance_dbs.either hrun
          rcases outcome with e | _ | next
          · exact hdbs
          · exact hdbs
          · exact hdbs
  | connectBlock => exact h.elim
  | disconnectBlock => exact h.elim
  | syncConnectBlock => exact h.elim
  | syncDisconnectBlock => exact h.elim

theorem Action.Quiet.tracked {action : Action} (h : action.Quiet)
    (htracked : Tracked C headers s.wallet.producer.store.dbs chain) :
    Tracked C headers (s.step S json isDust validator action).wallet.producer.store.dbs chain := by
  rw [h.dbs]
  exact htracked

/-- An action keeps track of the chain that it leads to. -/
theorem Leads.tracked {action : Action} (hhashes : HonestHashes C headers)
    (h : Leads headers validator s.wallet action chain chain')
    (htracked : Tracked C headers s.wallet.producer.store.dbs chain) :
    Tracked C headers (s.step S json isDust validator action).wallet.producer.store.dbs chain' := by
  cases h with
  | createP2mrAddress => exact Action.Quiet.tracked (by trivial) htracked
  | spendP2mr => exact Action.Quiet.tracked (by trivial) htracked
  | advance => exact Action.Quiet.tracked (by trivial) htracked
  | connected known core extra accepted =>
      change Tracked C headers (s.beginConnect validator _).wallet.producer.store.dbs _
      rw [store_beginConnect]
      have hrun := Program.eq_of_fst accepted
      exact (Validator.connectBlock_tracked htracked hhashes known).ok hrun core extra
  | refused known refused =>
      change Tracked C headers (s.beginConnect validator _).wallet.producer.store.dbs _
      rw [store_beginConnect]
      rcases hrun : validator.connectBlock C _ s.wallet.producer.store with ⟨outcome, t⟩
      rw [hrun] at refused
      cases outcome with
      | error e => exact (Validator.connectBlock_tracked htracked hhashes known).error hrun
      | ok action =>
          cases action with
          | accept => exact absurd rfl refused
          | reject => exact (Validator.connectBlock_tracked htracked hhashes known).ok hrun
  | disconnected undone => exact (Validator.disconnectBlock_tracked htracked).of_isOk undone
  | stuck failed =>
      have hdbs := (Validator.disconnectBlock_tracked htracked).of_not_isOk failed
      exact hdbs ▸ htracked
  | synced known core accepted =>
      exact (syncConnectBlock_producer htracked hhashes known).of_isOk accepted core
  | unsynced known refused =>
      exact (syncConnectBlock_producer htracked hhashes known).of_not_isOk refused
  | rewound undone => exact (Validator.syncDisconnectBlock_tracked htracked).of_isOk undone
  | jammed failed =>
      have hdbs := (Validator.syncDisconnectBlock_tracked htracked).of_not_isOk failed
      exact hdbs ▸ htracked

/-! ## Runs -/

/-- The actions so far, and the chain that they have led to. -/
inductive Lives (headers : Set Header) (S : Signers) (json : P2mrJson) (isDust : Amount → Script → Bool)
    (validator : Validator) (start : Session C) : List Action → List Block → Prop where
  | start : Lives headers S json isDust validator start [] []
  | act {actions : List Action} {action : Action} {chain chain' : List Block}
      (h : Lives headers S json isDust validator start actions chain)
      (leads : Leads headers validator (start.after S json isDust validator actions).wallet action chain
        chain') :
      Lives headers S json isDust validator start (actions ++ [action]) chain'

theorem Lives.tracked (hhashes : HonestHashes C headers)
    (hempty : start.wallet.producer.store.dbs = .empty)
    (h : Lives headers S json isDust validator start actions chain) :
    Tracked C headers (start.after S json isDust validator actions).wallet.producer.store.dbs chain := by
  induction h with
  | start =>
      change Tracked C headers start.wallet.producer.store.dbs []
      rw [hempty]
      exact .empty
  | act _ leads ih =>
      rw [Session.after_concat]
      exact leads.tracked hhashes ih

/-! ## Addresses -/

theorem isP2mrScript_p2mrScriptPubkey {root : Bytes} (h : root.length = 32) :
    isP2mrScript (Pqc.p2mrScriptPubkey root) = true := by
  simp [isP2mrScript, Pqc.p2mrScriptPubkey, h]

/-- An address that is made has a P2MR script. -/
theorem mkOutput_isP2mr {scheme : P2mrScheme} {entropy : Bytes} {spk leaf : Script}
    (hC : Pqc.Digests C) (h : mkOutput C S scheme entropy = .ok (spk, leaf)) : isP2mrScript spk = true := by
  have hroot : ∀ script, isP2mrScript (Pqc.p2mrScriptPubkey (Pqc.singleLeafMerkleRoot C script)) = true :=
    fun script => isP2mrScript_p2mrScriptPubkey (hC.p2mrLeafHash _ _)
  have hsingle : ∀ algorithm, Pqc.p2mrOutputForAlgorithm C S algorithm entropy = .ok (spk, leaf) →
      isP2mrScript spk = true := by
    intro algorithm hout
    obtain ⟨keypair, -, hout⟩ := Except.bind_eq_ok_iff.mp hout
    obtain ⟨script, -, heq⟩ := Except.bind_eq_ok_iff.mp hout
    cases heq
    exact hroot leaf
  cases scheme with
  | schnorr => exact hsingle .schnorr (Except.mapError_eq_ok_iff.mp h)
  | mldsa => exact hsingle .mldsa (Except.mapError_eq_ok_iff.mp h)
  | slh => exact hsingle .slh (Except.mapError_eq_ok_iff.mp h)
  | hybridEcSlh =>
      obtain ⟨⟨ec, slh⟩, -, h⟩ := Except.bind_eq_ok_iff.mp h
      rw [Except.mapError_eq_ok_iff] at h
      obtain ⟨_, -, h⟩ := Except.bind_eq_ok_iff.mp h
      obtain ⟨_, -, h⟩ := Except.bind_eq_ok_iff.mp h
      obtain ⟨_, -, h⟩ := Except.bind_eq_ok_iff.mp h
      obtain ⟨_, -, heq⟩ := Except.bind_eq_ok_iff.mp h
      cases heq
      exact hroot _

theorem Grows.built {store store' : P2mrStore} (h : Grows C S store store')
    (hstore : ∀ record ∈ store, P2mrFile.Built C S record) :
    ∀ record ∈ store', P2mrFile.Built C S record := by
  obtain ⟨new, rfl, hnew⟩ := h
  intro record hin
  rcases List.mem_append.mp hin with hin | hin
  · exact hstore record hin
  · obtain ⟨scheme, entropy, hrecord⟩ := hnew record hin
    exact P2mrFile.buildRecord_built hrecord

end Wallet

end Bip360Enforcer
