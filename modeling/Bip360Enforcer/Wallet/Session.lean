import Bip360Enforcer.Wallet.Spend

/-!
# Calls of the wallet, while others are under way

No lock is held between the parts of `spend_p2mr`, nor between the validator's part of `connect_block` and
the reaping: other calls and blocks come in between them.
-/

namespace Bip360Enforcer.Wallet

open Pqc (Signers)

/-- How far a call has come. -/
inductive CallStage where
  | found (request : SpendRequest) (prevout : TxOut)
  | planned (request : SpendRequest) (prevout : TxOut) (record : P2mrAddressRecord) (plan : SpendPlan)
  | prepared (spend : PreparedSpend)
  /-- The validator has accepted the block; the spends that it has mined are still queued. -/
  | accepted (block : Block)
  deriving DecidableEq, Repr

/-- The wallet, and the calls of `spend_p2mr` and `connect_block` that have not returned. -/
structure Session (C : Crypto) where
  wallet : Wallet C
  calls : List CallStage

variable {C : Crypto} (S : Signers) (json : P2mrJson) (isDust : Amount → Script → Bool)
  (validator : Validator)

/-- The next part of a call; there is no stage after the last one. -/
def CallStage.advance (entropy : Option Bytes) :
    CallStage → Program (Wallet C) SpendP2mrError (Option CallStage)
  | found request prevout => do
      let (record, plan) ← planOwnSpend json isDust request prevout
      pure (some (planned request prevout record plan))
  | planned request prevout record plan => do
      let spend ← signSpend S json request prevout record plan entropy
      pure (some (prepared spend))
  | prepared spend => do
      let _ ← queueSpend spend
      pure none
  | accepted block => do
      onProducer (BlockProducer.reapConfirmedP2mrSpends block)
      pure none

/-- What happens to the wallet. -/
inductive Action where
  | createP2mrAddress (scheme : P2mrScheme) (entropy : Option Bytes)
  | spendP2mr (request : SpendRequest)
  | connectBlock (block : Block)
  /-- A call that is under way goes on. -/
  | advance (n : Nat) (entropy : Option Bytes)
  | disconnectBlock (blockHash : BlockHash)
  | syncConnectBlock (block : Block)
  | syncDisconnectBlock (blockHash : BlockHash)

namespace Session

variable {ε α : Type}

/-- A call that returns at once, whether it fails or not. -/
def onWallet (x : Program (Wallet C) ε α) (s : Session C) : Session C := { s with wallet := (x s.wallet).2 }

/-- A call of `spend_p2mr`; one that is refused has returned. -/
def beginSpend (request : SpendRequest) (s : Session C) : Session C :=
  match findPrevout request s.wallet with
  | (.ok prevout, wallet) => ⟨wallet, s.calls ++ [.found request prevout]⟩
  | (.error _, wallet) => ⟨wallet, s.calls⟩

/-- A call of `connect_block`; one that is not accepted has returned. -/
def beginConnect (block : Block) (s : Session C) : Session C :=
  match onProducer (BlockProducer.connectBlockValidator validator block) s.wallet with
  | (.ok .accept, wallet) => ⟨wallet, s.calls ++ [.accepted block]⟩
  | (.ok .reject, wallet) => ⟨wallet, s.calls⟩
  | (.error _, wallet) => ⟨wallet, s.calls⟩

def advance (n : Nat) (entropy : Option Bytes) (s : Session C) : Session C :=
  match s.calls[n]? with
  | none => s
  | some stage =>
      match stage.advance S json isDust entropy s.wallet with
      | (.ok (some next), wallet) => ⟨wallet, s.calls.set n next⟩
      | (.ok none, wallet) => ⟨wallet, s.calls.eraseIdx n⟩
      | (.error _, wallet) => ⟨wallet, s.calls.eraseIdx n⟩

def step (s : Session C) : Action → Session C
  | .createP2mrAddress scheme entropy => s.onWallet (createP2mrAddress S json scheme entropy)
  | .spendP2mr request => s.beginSpend request
  | .connectBlock block => s.beginConnect validator block
  | .advance n entropy => s.advance S json isDust n entropy
  | .disconnectBlock blockHash => s.onWallet (onProducer (BlockProducer.disconnectBlock blockHash))
  | .syncConnectBlock block => s.onWallet (onProducer (BlockProducer.syncConnectBlock validator block))
  | .syncDisconnectBlock blockHash =>
      s.onWallet (onProducer (BlockProducer.syncDisconnectBlock blockHash))

/-- The session after some actions. -/
def after (s : Session C) (actions : List Action) : Session C :=
  actions.foldl (Session.step S json isDust validator) s

theorem after_concat (s : Session C) (actions : List Action) (action : Action) :
    s.after S json isDust validator (actions ++ [action]) =
      (s.after S json isDust validator actions).step S json isDust validator action := by
  rw [after, List.foldl_append]
  rfl

theorem after_append (s : Session C) (earlier later : List Action) :
    s.after S json isDust validator (earlier ++ later) =
      (s.after S json isDust validator earlier).after S json isDust validator later := List.foldl_append

/-! ## Calls with nothing in between -/

theorem advance_length (wallet : Wallet C) (calls : List CallStage) (entropy : Option Bytes) :
    (⟨wallet, calls⟩ : Session C).advance S json isDust calls.length entropy = ⟨wallet, calls⟩ := by
  rw [advance, List.getElem?_length]

theorem advance_last (wallet : Wallet C) (calls : List CallStage) (stage : CallStage)
    (entropy : Option Bytes) :
    (⟨wallet, calls ++ [stage]⟩ : Session C).advance S json isDust calls.length entropy =
      ⟨(stage.advance S json isDust entropy wallet).2,
        calls ++ match (stage.advance S json isDust entropy wallet).1 with
          | .ok next => next.toList
          | .error _ => []⟩ := by
  rw [advance, List.getElem?_concat_length]
  dsimp only
  rcases stage.advance S json isDust entropy wallet with ⟨outcome, wallet'⟩
  cases outcome with
  | error e => simp [List.eraseIdx_append_of_length_le]
  | ok next =>
      cases next with
      | none => simp [List.eraseIdx_append_of_length_le]
      | some next => simp

/-- A call of `spend_p2mr`, if nothing comes in between its parts. -/
theorem spendP2mr_alone (s : Session C) (request : SpendRequest) (entropy : Option Bytes) :
    s.after S json isDust validator [.spendP2mr request, .advance s.calls.length entropy,
      .advance s.calls.length entropy, .advance s.calls.length entropy] =
      s.onWallet (spendP2mr S json isDust request entropy) := by
  simp only [after, List.foldl_cons, List.foldl_nil, step, beginSpend, onWallet, spendP2mr,
    Program.bind_apply]
  rcases findPrevout request s.wallet with ⟨_ | prevout, w⟩
  · simp only [advance_length]
  · simp only [advance_last, CallStage.advance, Program.bind_apply]
    rcases planOwnSpend json isDust request prevout w with ⟨_ | ⟨record, plan⟩, w'⟩
    · simp only [List.append_nil, advance_length]
    · simp only [Program.pure_apply, Option.toList_some, advance_last, CallStage.advance, Program.bind_apply]
      rcases signSpend S json request prevout record plan entropy w' with ⟨_ | spend, w₁⟩
      · simp only [List.append_nil, advance_length]
      · simp only [Program.pure_apply, Option.toList_some, advance_last, CallStage.advance,
          Program.bind_apply]
        rcases queueSpend spend w₁ with ⟨_ | outcome, w₂⟩
        · simp
        · simp

/-- A call of `connect_block`, if nothing comes in before the reaping. -/
theorem connectBlock_alone (s : Session C) (block : Block) (entropy : Option Bytes) :
    s.after S json isDust validator [.connectBlock block, .advance s.calls.length entropy] =
      s.onWallet (onProducer (BlockProducer.connectBlock validator block)) := by
  simp only [after, List.foldl_cons, List.foldl_nil, step, beginConnect, onWallet, onProducer,
    BlockProducer.connectBlock, Program.focus, Program.bind_apply]
  rcases BlockProducer.connectBlockValidator validator block s.wallet.producer with ⟨_ | action, producer⟩
  · simp only [advance_length]
  · cases action with
    | reject =>
        simp only [advance_length]
        rfl
    | accept =>
        simp only [advance_last]
        exact congrArg (Session.mk _) (List.append_nil _)

end Session

end Bip360Enforcer.Wallet
