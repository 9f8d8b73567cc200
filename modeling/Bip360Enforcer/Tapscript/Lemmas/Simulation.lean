import Bip360Enforcer.Tapscript.Lemmas.Timelocks
import Bip360Enforcer.Tapscript.Soundness

/-!
# Every step of the interpreter is a step of the reference semantics
-/

namespace Bip360Enforcer.Tapscript

open Except (bind_eq_ok_iff ite_error_eq_ok_iff)
open SignMagnitude (value natAbs_value_concat)
open LittleEndian (decode)

variable {C : Crypto} {ctx : LeafContext} {policy : Policy} {stack stack' : Stack}

/-! ## Truth values and numbers -/

theorem isTruthy_concat (init : Bytes) (last : UInt8) :
    isTruthy (init ++ [last]) = (decide (decode init ≠ 0) || decide (last.toNat % 128 ≠ 0)) := by
  induction init with
  | nil =>
      have hall : ∀ n : Fin 256, isTruthy [UInt8.ofNat n] = decide (n.val % 128 ≠ 0) := by
        decide +kernel
      simpa using hall ⟨last.toNat, last.toNat_lt⟩
  | cons b init ih =>
      rw [List.cons_append, isTruthy, ih, LittleEndian.decode_cons]
      by_cases hb : b = 0
      · subst hb
        simp
      · have hb' : b.toNat ≠ 0 := by simpa [← UInt8.toNat_inj] using hb
        have hne : b.toNat + 256 * decode init ≠ 0 := by omega
        simp only [bne_iff_ne, ne_eq, hb, not_false_eq_true, if_true, hne, decide_true, Bool.true_or]
        simp

theorem isTruthy_eq (v : Bytes) : isTruthy v = Bip342.castToBool v := by
  rcases List.eq_nil_or_concat v with rfl | ⟨init, last, rfl⟩
  · rfl
  · have hpow : 0 < 256 ^ init.length := by positivity
    rw [List.concat_eq_append, isTruthy_concat, Bip342.castToBool]
    have habs := natAbs_value_concat init last
    have hvalue : value (init ++ [last]) ≠ 0 ↔ decode init ≠ 0 ∨ last.toNat % 128 ≠ 0 := by
      rw [← Int.natAbs_ne_zero, habs, ne_eq, Nat.add_eq_zero_iff, Nat.mul_eq_zero]
      omega
    simp only [hvalue, Bool.decide_or]

theorem ReadsNum.num {item : Bytes} {maxLen : Nat} {n : Int64} (h : ReadsNum item maxLen n)
    (minimal : Bool) : Bip342.num minimal maxLen item = some n.toInt := by
  rw [Bip342.num, if_pos ⟨h.length_le, fun _ => h.minimal⟩, h.toInt_eq]

theorem readScriptnum_reads {item : Bytes} {maxLen : Nat} {n : Int64} (hm : maxLen ≤ 8)
    (h : readScriptnum item maxLen = .ok n) : ReadsNum item maxLen n :=
  have ⟨hlen, hmin, hval⟩ := (readScriptnum_eq_ok hm).mp h
  ⟨hlen, hmin, hval⟩

theorem natAbs_value_lt {item : Bytes} (h : item.length ≤ 4) : (value item).natAbs < 2 ^ 31 :=
  SignMagnitude.natAbs_lt_of_length_le (by omega) h

/-- The counter of OP_CHECKSIGADD does not overflow. -/
theorem toInt_succ {item : Bytes} {n : Int64} (h : ReadsNum item 4 n) :
    (n + 1).toInt = n.toInt + 1 := by
  have hlt := natAbs_value_lt h.length_le
  rw [← h.toInt_eq] at hlt
  rw [Int64.toInt_add]
  exact Int.bmod_eq_of_le (by simp; omega) (by simp; omega)

/-! ## Signatures -/

theorem splitSignature_of_fromSlice {sig : Bytes} {parsed : TaprootSignature}
    (h : TaprootSignature.fromSlice sig = some parsed) :
    Bip342.splitSignature sig =
      if sig.length = 65 ∧ sig.getLast? = some 0 then none
      else some (parsed.signature, parsed.sighashType) := by
  unfold TaprootSignature.fromSlice at h
  unfold Bip342.splitSignature
  split_ifs at h with h64 h65
  · simp only [Option.some.injEq] at h
    subst h
    simp [h64]
  · obtain ⟨t, ht, rfl⟩ := Option.map_eq_some_iff.mp h
    rw [if_neg h64, if_pos h65]
    cases hlast : sig.getLast? with
    | none =>
        rw [List.getLast?_eq_none_iff] at hlast
        subst hlast
        simp at h65
    | some hashType =>
        simp only [hlast, Option.getD_some] at ht
        by_cases h0 : hashType = 0
        · simp [h0, h65]
        · simp [h0, ht]

/-- What a signature that the interpreter accepts has passed. -/
theorem verifySchnorr_true {sig pubkey : Bytes} (h : verifySchnorr C sig pubkey ctx = .ok true) :
    pubkey.length = 32 ∧ C.xonlyValid pubkey = true ∧ ∃ parsed message,
      TaprootSignature.fromSlice sig = some parsed ∧
      sighashOracle C ctx parsed.sighashType = some message ∧
      C.schnorrVerify parsed.signature message pubkey = true := by
  unfold verifySchnorr at h
  simp only [ite_error_eq_ok_iff, ne_eq, not_not] at h
  obtain ⟨hlen, hxonly, h⟩ := h
  have hvalid : C.xonlyValid pubkey = true := by
    simpa [Crypto.xonlyFromSlice, hlen] using hxonly
  split at h
  · simp at h
  · rename_i parsed hparsed
    simp only [ite_error_eq_ok_iff, bind_eq_ok_iff] at h
    obtain ⟨-, prevouts, hprevouts, h⟩ := h
    split at h
    · simp at h
    · rename_i message hmessage
      simp only [Except.ok.injEq] at h
      exact ⟨hlen, hvalid, parsed, message, hparsed,
        by simp [sighashOracle, hprevouts, hmessage, Except.toOption], h⟩

theorem requireSchnorr_ok {sig pubkey : Bytes} (h : requireSchnorr C sig pubkey ctx = .ok ()) :
    verifySchnorr C sig pubkey ctx = .ok true := by
  obtain ⟨valid, hvalid, h⟩ := bind_eq_ok_iff.mp h
  cases valid with
  | true => exact hvalid
  | false => simp at h

/-- On what the interpreter lets pass, the common signature rules differ at unclean checks only. -/
theorem checkSignature_eq {sig pubkey : Bytes}
    (h : sig = [] ∨ sig ≠ [] ∧ requireSchnorr C sig pubkey ctx = .ok ()) :
    Bip342.checkSignature C (rulesOf C ctx policy) pubkey sig =
      if cleanSig pubkey sig then some (!sig.isEmpty) else none := by
  unfold Bip342.checkSignature
  rcases h with rfl | ⟨hne, h⟩
  · cases pubkey <;> simp [cleanSig]
  · obtain ⟨hlen, hvalid, parsed, message, hparsed, hmessage, hverify⟩ :=
      verifySchnorr_true (requireSchnorr_ok h)
    have hsplit := splitSignature_of_fromSlice hparsed
    have hempty : sig.isEmpty = false := by simpa using hne
    have hclean : cleanSig pubkey sig = !(sig.length == 65 && sig.getLast? == some 0) := by
      simp [cleanSig, hempty]
    rw [if_neg (by omega), hempty, if_neg (by simp), if_pos hlen, hclean, Bip342.validSignature,
      hsplit]
    by_cases hunclean : sig.length = 65 ∧ sig.getLast? = some 0
    · simp [hunclean]
    · rw [if_neg hunclean]
      have hmessage' : (rulesOf C ctx policy).sighash parsed.sighashType = some message := hmessage
      simp only [hmessage', hvalid, hverify]
      simp only [not_and] at hunclean
      grind

/-! ## Opcodes -/

theorem hashTop_ok {opcode : String} {hash : Bytes → Bytes}
    (h : hashTop stack opcode hash = .ok stack') :
    ∃ x below, stack.items = x :: below ∧ stack'.items = hash x :: below := by
  simp only [hashTop, bind_eq_ok_iff, Prod.exists, Stack.pop_eq_ok, Stack.push_eq_ok] at h
  obtain ⟨x, rest, hpop, hpush⟩ := h
  exact ⟨x, rest.items, hpop, hpush⟩

/-- A timelock opcode reads the number on top, and leaves it there. -/
theorem timelock_ok {opcode : String} {check : Int64 → Except InterpError Unit}
    (h : (do
      let top ← stack.top opcode
      let n ← readScriptnum top 5
      if n < 0 then .error .timelockNotSatisfied
      else
        check n
        .ok stack) = .ok stack') :
    ∃ x below n, stack.items = x :: below ∧ ReadsNum x 5 n ∧ 0 ≤ n.toInt ∧ check n = .ok () ∧
      stack = stack' := by
  simp only [bind_eq_ok_iff, Stack.top_eq_ok] at h
  obtain ⟨x, ⟨below, hitems⟩, n, hn, h⟩ := h
  simp only [ite_error_eq_ok_iff, bind_eq_ok_iff, Except.ok.injEq] at h
  obtain ⟨hnonneg, _, hcheck, rfl⟩ := h
  have h0 : 0 ≤ n.toInt := by simpa [Int64.lt_iff_toInt_lt] using hnonneg
  exact ⟨x, below, n, hitems, readScriptnum_reads (by omega) hn, h0, hcheck, rfl⟩

/-- A signature opcode goes on from an empty signature, or from one that has passed. -/
theorem signatureOp_ok {sig pubkey : Bytes} {x y : Except InterpError Stack}
    (h : (if sig.isEmpty then x
      else do
        requireSchnorr C sig pubkey ctx
        y) = .ok stack') :
    (sig = [] ∧ x = .ok stack') ∨ (sig ≠ [] ∧ requireSchnorr C sig pubkey ctx = .ok () ∧ y = .ok stack') := by
  split at h
  · rename_i hempty
    exact .inl ⟨List.isEmpty_iff.mp hempty, h⟩
  · rename_i hempty
    obtain ⟨_, hrequire, h⟩ := bind_eq_ok_iff.mp h
    exact .inr ⟨fun hnil => hempty (List.isEmpty_iff.mpr hnil), hrequire, h⟩

/-- Opcodes on the stack alone: the reference does the same, unless a signature check is unclean. -/
theorem stackOp_eq {op : Opcode} (h : execStackOp C ctx op stack = .ok stack') :
    Bip342.stackOp C (rulesOf C ctx policy) op stack.items =
      if cleanItem (some (.op op)) stack.items then some stack'.items else none := by
  cases op with
  | pushnum n =>
      rw [execStackOp, Stack.push_eq_ok] at h
      simp [Bip342.stackOp, cleanItem, h]
  | dup =>
      simp only [execStackOp, bind_eq_ok_iff, Prod.exists, Stack.pop_eq_ok, Stack.push_eq_ok] at h
      obtain ⟨x, rest, hpop, mid, hmid, hpush⟩ := h
      simp [Bip342.stackOp, cleanItem, hpop, hpush, hmid]
  | drop =>
      simp only [execStackOp, bind_eq_ok_iff, Prod.exists, Stack.pop_eq_ok, Except.ok.injEq] at h
      obtain ⟨x, rest, hpop, rfl⟩ := h
      simp [Bip342.stackOp, cleanItem, hpop]
  | swap =>
      simp only [execStackOp, bind_eq_ok_iff, Prod.exists, Stack.pop_eq_ok, Stack.push_eq_ok] at h
      obtain ⟨x, rest, hpop, y, rest', hpop', mid, hmid, hpush⟩ := h
      simp [Bip342.stackOp, cleanItem, hpop, hpop', hpush, hmid]
  | equal =>
      simp only [execStackOp, bind_eq_ok_iff, Prod.exists, Stack.pop_eq_ok, Stack.push_eq_ok] at h
      obtain ⟨x, rest, hpop, y, rest', hpop', hpush⟩ := h
      simp [Bip342.stackOp, cleanItem, hpop, hpop', hpush]
  | equalverify =>
      simp only [execStackOp, bind_eq_ok_iff, Prod.exists, Stack.pop_eq_ok] at h
      obtain ⟨x, rest, hpop, y, rest', hpop', h⟩ := h
      split_ifs at h with hxy
      simp only [Except.ok.injEq] at h
      simp [Bip342.stackOp, cleanItem, hpop, hpop', hxy, h]
  | verify =>
      simp only [execStackOp, bind_eq_ok_iff, Prod.exists, Stack.pop_eq_ok] at h
      obtain ⟨x, rest, hpop, h⟩ := h
      split_ifs at h with hx
      simp only [Except.ok.injEq] at h
      simp [Bip342.stackOp, cleanItem, hpop, ← isTruthy_eq, hx, h]
  | sha256 =>
      obtain ⟨x, below, hitems, hitems'⟩ := hashTop_ok h
      simp [Bip342.stackOp, cleanItem, hitems, hitems']
  | hash256 =>
      obtain ⟨x, below, hitems, hitems'⟩ := hashTop_ok h
      simp [Bip342.stackOp, cleanItem, hitems, hitems']
  | hash160 =>
      obtain ⟨x, below, hitems, hitems'⟩ := hashTop_ok h
      simp [Bip342.stackOp, cleanItem, hitems, hitems']
  | ripemd160 =>
      obtain ⟨x, below, hitems, hitems'⟩ := hashTop_ok h
      simp [Bip342.stackOp, cleanItem, hitems, hitems']
  | cat =>
      simp only [execStackOp, bind_eq_ok_iff, Prod.exists, Stack.pop_eq_ok] at h
      obtain ⟨x₂, rest, hpop, x₁, rest', hpop', h⟩ := h
      rw [ite_error_eq_ok_iff, Stack.push_eq_ok] at h
      simp [Bip342.stackOp, cleanItem, hpop, hpop', h.2]
  | ctv =>
      simp only [execStackOp, bind_eq_ok_iff, Stack.top_eq_ok, ite_error_eq_ok_iff, ne_eq, not_not,
        Except.ok.injEq] at h
      obtain ⟨x, ⟨below, hitems⟩, -, hx, rfl⟩ := h
      simp [Bip342.stackOp, cleanItem, hitems, rulesOf, ← hx]
  | csv =>
      obtain ⟨x, below, n, hitems, hread, h0, hsequence, rfl⟩ := timelock_ok h
      have hsat := (@checkSequence_eq_ok (rulesOf C ctx policy) _ _ (isNat_of_nonneg h0)).mp hsequence
      simpa [Bip342.stackOp, cleanItem, hitems, hread.num, h0] using hsat
  | cltv =>
      obtain ⟨x, below, n, hitems, hread, h0, hlocktime, rfl⟩ := timelock_ok h
      have hsat := (@checkLocktime_eq_ok (rulesOf C ctx policy) _ _ (isNat_of_nonneg h0)).mp hlocktime
      simpa [Bip342.stackOp, cleanItem, hitems, hread.num, h0] using hsat
  | checksig =>
      simp only [execStackOp, bind_eq_ok_iff, Prod.exists, Stack.pop_eq_ok] at h
      obtain ⟨pubkey, rest, hpubkey, sig, rest', hsig, h⟩ := h
      simp only [Bip342.stackOp, cleanItem, hpubkey, hsig]
      rcases signatureOp_ok h with ⟨rfl, hpush⟩ | ⟨hempty, hrequire, hpush⟩
      · rw [Stack.push_eq_ok] at hpush
        rw [checkSignature_eq (.inl rfl), hpush]
        cases cleanSig pubkey [] <;> rfl
      · rw [Stack.push_eq_ok] at hpush
        rw [checkSignature_eq (.inr ⟨hempty, hrequire⟩), hpush]
        cases cleanSig pubkey sig <;> simp [hempty]
  | checksigverify =>
      simp only [execStackOp, bind_eq_ok_iff, Prod.exists, Stack.pop_eq_ok] at h
      obtain ⟨pubkey, rest, hpubkey, sig, rest', hsig, h⟩ := h
      simp only [Bip342.stackOp, cleanItem, hpubkey, hsig]
      rcases signatureOp_ok h with ⟨rfl, herror⟩ | ⟨hempty, hrequire, hrest⟩
      · cases herror
      · simp only [Except.ok.injEq] at hrest
        rw [checkSignature_eq (.inr ⟨hempty, hrequire⟩), hrest]
        cases cleanSig pubkey sig <;> simp [hempty]
  | checksigadd =>
      simp only [execStackOp, bind_eq_ok_iff, Prod.exists, Stack.pop_eq_ok] at h
      obtain ⟨pubkey, rest, hpubkey, n, rest', hn, sig, rest'', hsig, h⟩ := h
      obtain ⟨item, hitem, hread⟩ := popNum_reads (by omega) hn
      have hitems : stack.items = pubkey :: item :: sig :: rest''.items := by
        rw [hpubkey, hitem, hsig]
      simp only [Bip342.stackOp, cleanItem, hitems, hread.num]
      rcases signatureOp_ok h with ⟨rfl, hpush⟩ | ⟨hempty, hrequire, hpush⟩
      · rw [Stack.push_eq_ok] at hpush
        rw [checkSignature_eq (.inl rfl), hpush, encodeScriptnum_eq]
        cases cleanSig pubkey [] <;> rfl
      · rw [Stack.push_eq_ok] at hpush
        rw [checkSignature_eq (.inr ⟨hempty, hrequire⟩), hpush, encodeScriptnum_eq]
        have hsucc := toInt_succ hread
        cases cleanSig pubkey sig <;> simp [hempty, hsucc]
  | booland => simp [execStackOp] at h
  | substr => simp [execStackOp] at h
  | checkmultisig => simp [execStackOp] at h
  | checkmultisigverify => simp [execStackOp] at h
  | vault => simp [execStackOp] at h
  | vaultRecover => simp [execStackOp] at h
  | other byte => simp [execStackOp] at h

/-! ## Vault opcodes -/

theorem outputIndex_eq {R : Bip342.Rules} {item : Bytes} {n : Int64} {out : TxOut}
    (h : ReadsNum item 4 n) (h0 : 0 ≤ n.toInt) (hout : outputAt R.tx n = .ok out) :
    Bip342.outputIndex R item = some out := by
  simp only [Bip342.outputIndex, h.num, Option.bind_eq_bind, Option.bind_some]
  rw [if_neg (by omega)]
  exact outputAt_ok h0 hout

theorem revaultAllowed_of_ok {R : Bip342.Rules} {args : VaultArgs} {spent : TxOut} {v : UInt64}
    (hiff : 0 < args.revaultAmount.toInt ↔ 0 ≤ args.revaultIdx.toInt)
    (hge : -1 ≤ args.revaultIdx.toInt) (hamount : 0 ≤ args.revaultAmount.toInt)
    (h : checkRevaultOut R.tx spent args.revaultIdx = .ok v) :
    Bip342.revaultAllowed R args.revaultIdx.toInt args.revaultAmount.toInt spent = true := by
  unfold Bip342.revaultAllowed
  by_cases hidx : 0 ≤ args.revaultIdx.toInt
  · unfold checkRevaultOut at h
    rw [if_pos (Int64.le_iff_toInt_le.mpr (by simpa using hidx))] at h
    obtain ⟨out, hout, h⟩ := bind_eq_ok_iff.mp h
    simp only [ite_error_eq_ok_iff, ne_eq, not_not] at h
    have hget := outputAt_ok hidx hout
    rw [if_neg (by omega), hget]
    simp [hiff.mpr hidx, hidx, h.1]
  · rw [if_pos (by omega)]
    simp
    omega

theorem vault_eq {check : DeferredCheck} (h : execOpVault C ctx stack = .ok (stack', check)) :
    Bip342.vault C (rulesOf C ctx policy) stack.items = some stack'.items := by
  unfold execOpVault at h
  split at h
  · simp at h
  · rename_i spent hspent
    simp only [bind_eq_ok_iff, Prod.exists] at h
    obtain ⟨args, rest, hargs, triggerOut, htrigger, h⟩ := h
    simp only [ite_error_eq_ok_iff, Bool.not_eq_true', Bool.not_eq_false, ne_eq, not_not] at h
    obtain ⟨hp2tr, hspk, h⟩ := h
    obtain ⟨revaultValue, hrevault, h⟩ := bind_eq_ok_iff.mp h
    split at h
    · simp at h
    · simp only [ite_error_eq_ok_iff, bind_eq_ok_iff, Stack.push_eq_ok, Except.ok.injEq,
        Prod.mk.injEq] at h
      obtain ⟨-, _, hpush, rfl, -⟩ := h
      obtain ⟨body, pushCount, trigger, revault, amount, pushed, hpop⟩ := popVaultArgs_ok hargs
      have hcount : Bip342.num true 4 pushCount = some (pushed.length : Int) := by
        rw [Bip342.num, if_pos ⟨hpop.pushCount_len, fun _ => hpop.pushCount_minimal⟩, hpop.pushCount_eq]
      have hallowed := @revaultAllowed_of_ok (rulesOf C ctx policy) args spent revaultValue
        hpop.revault_iff hpop.revaultIdx_ge hpop.revaultAmount_nonneg hrevault
      have hout := @outputIndex_eq (rulesOf C ctx policy) _ _ _ hpop.triggerIdx
        hpop.triggerIdx_nonneg htrigger
      have hspent' : (rulesOf C ctx policy).spent = some spent := hspent
      have hcontrol : (rulesOf C ctx policy).control = ctx.control := rfl
      simp only [Bip342.vault, hpop.items_eq, hcount, Option.bind_eq_bind, Option.bind_some,
        Int.toNat_natCast, List.take_left, List.drop_left, hout, hpop.revaultIdx.num,
        hpop.revaultAmount.num, hspent', hcontrol]
      rw [if_neg (by omega), if_pos ⟨hp2tr, by rw [hspk, hpop.leafUpdate_eq], hallowed⟩, hpush]

theorem vaultRecover_eq {check : DeferredCheck}
    (h : execOpVaultRecover C ctx stack = .ok (stack', check)) :
    Bip342.vaultRecover C (rulesOf C ctx policy) stack.items = some stack'.items := by
  unfold execOpVaultRecover at h
  split at h
  · simp at h
  · simp only [bind_eq_ok_iff, Prod.exists] at h
    obtain ⟨hash, rest, hhash, h⟩ := h
    simp only [ite_error_eq_ok_iff, bind_eq_ok_iff, Prod.exists, ne_eq, not_not] at h
    obtain ⟨hlen, voutIdx, rest', hvout, h⟩ := h
    simp only [Stack.push_eq_ok, Except.ok.injEq, Prod.mk.injEq, not_or, Int64.lt_iff_toInt_lt,
      Int64.toInt_zero, not_lt] at h
    obtain ⟨⟨h0, -⟩, out, hout, hspk, _, hpush, rfl, -⟩ := h
    obtain ⟨item, hitems, hread⟩ := popNum_reads (by omega) hvout
    have hindex := @outputIndex_eq (rulesOf C ctx policy) _ _ _ hread h0 hout
    simp only [Bip342.vaultRecover, Stack.pop_eq_ok.mp hhash, hitems, hindex, Option.bind_eq_bind,
      Option.bind_some]
    rw [if_pos ⟨hlen, hspk⟩, hpush]

/-! ## Steps -/

/-- The state of the reference while the interpreter's stack is `stack`. -/
def referenceState (stack : Stack) : Bip342.State := ⟨stack.items, [], []⟩

theorem withinLimits_referenceState (stack : Stack) :
    Bip342.withinLimits (referenceState stack) = true := by
  simpa [Bip342.withinLimits, referenceState] using ⟨stack.length_le, stack.element_le⟩

theorem implemented_of_execOp {op : Opcode} {queued : List DeferredCheck}
    (h : execOp C ctx op stack = .ok (stack', queued)) : Bip342.implemented op = true := by
  cases op with
  | booland => simp [execOp, execStackOp, bind, Except.bind] at h
  | substr => simp [execOp, execStackOp, bind, Except.bind] at h
  | checkmultisig => simp [execOp, execStackOp, bind, Except.bind] at h
  | checkmultisigverify => simp [execOp, execStackOp, bind, Except.bind] at h
  | other byte => simp [execOp, execStackOp, bind, Except.bind] at h
  | _ => rfl

theorem execOp_eq {op : Opcode} {queued : List DeferredCheck}
    (h : execOp C ctx op stack = .ok (stack', queued)) :
    Bip342.stackOp C (rulesOf C ctx policy) op stack.items =
      if cleanItem (some (.op op)) stack.items then some stack'.items else none := by
  unfold execOp at h
  split at h
  · simp only [bind_eq_ok_iff, Prod.exists, Except.ok.injEq, Prod.mk.injEq] at h
    obtain ⟨_, check, hvault, rfl, -⟩ := h
    simp [Bip342.stackOp, cleanItem, vault_eq hvault]
  · simp only [bind_eq_ok_iff, Prod.exists, Except.ok.injEq, Prod.mk.injEq] at h
    obtain ⟨_, check, hrecover, rfl, -⟩ := h
    simp [Bip342.stackOp, cleanItem, vaultRecover_eq hrecover]
  · simp only [bind_eq_ok_iff, Except.ok.injEq, Prod.mk.injEq] at h
    obtain ⟨_, hop, rfl, -⟩ := h
    exact stackOp_eq hop

/-- One instruction: the reference does the same at clean signature checks, and fails at others. -/
theorem step_eq {item : Item} {queued : List DeferredCheck}
    (h : execItem C ctx stack item = .ok (stack', queued)) :
    Bip342.step C (rulesOf C ctx policy) (referenceState stack) item =
      if cleanItem item stack.items then some (referenceState stack') else none := by
  have hexec : Bip342.execItem C (rulesOf C ctx policy) (referenceState stack) item =
      if cleanItem item stack.items then some (referenceState stack') else none := by
    unfold execItem at h
    split at h
    · simp at h
    · simp only [bind_eq_ok_iff, Stack.push_eq_ok, Except.ok.injEq, Prod.mk.injEq] at h
      obtain ⟨_, hpush, rfl, -⟩ := h
      simp [Bip342.execItem, cleanItem, referenceState, hpush]
    · rename_i op
      simp only [Bip342.execItem, implemented_of_execOp h, referenceState, List.all_nil, if_true,
        execOp_eq h]
      split <;> rfl
  rw [Bip342.step, hexec]
  split
  · simp [withinLimits_referenceState]
  · rfl

/-! ## Runs -/

theorem cleanRun_cons {item : Item} {items : List Item} {queued : List DeferredCheck}
    (h : execItem C ctx stack item = .ok (stack', queued)) :
    cleanRun C ctx stack (item :: items) =
      (cleanItem item stack.items && cleanRun C ctx stack' items) := by
  rw [cleanRun, h]

theorem run_eq_of_clean {items : List Item} {m m' : Machine}
    (hclean : cleanRun C ctx m.stack items = true) (h : items.foldlM (step C ctx) m = .ok m') :
    items.foldlM (Bip342.step C (rulesOf C ctx policy)) (referenceState m.stack)
      = some (referenceState m'.stack) := by
  induction items generalizing m with
  | nil =>
      obtain rfl : m = m' := by simpa [pure, Except.pure] using h
      rfl
  | cons item items ih =>
      obtain ⟨t, hstep, hrest⟩ := Except.foldlM_cons_ok_iff.mp h
      simp only [step, bind_eq_ok_iff, Prod.exists, Except.ok.injEq] at hstep
      obtain ⟨stack, queued, hitem, rfl⟩ := hstep
      rw [cleanRun_cons hitem, Bool.and_eq_true] at hclean
      rw [List.foldlM_cons, step_eq hitem, if_pos hclean.1]
      exact ih hclean.2 hrest

theorem clean_of_run_some {items : List Item} {m m' : Machine} {st : Bip342.State}
    (h : items.foldlM (step C ctx) m = .ok m')
    (href : items.foldlM (Bip342.step C (rulesOf C ctx policy)) (referenceState m.stack) = some st) :
    cleanRun C ctx m.stack items = true := by
  induction items generalizing m with
  | nil => rfl
  | cons item items ih =>
      obtain ⟨t, hstep, hrest⟩ := Except.foldlM_cons_ok_iff.mp h
      simp only [step, bind_eq_ok_iff, Prod.exists, Except.ok.injEq] at hstep
      obtain ⟨stack, queued, hitem, rfl⟩ := hstep
      rw [List.foldlM_cons, step_eq hitem] at href
      split_ifs at href with hclean
      · rw [cleanRun_cons hitem, hclean, Bool.true_and]
        exact ih hrest href
      · simp at href

theorem cleanRun_take {items : List Item} {m m' : Machine} (h : items.foldlM (step C ctx) m = .ok m')
    (hclean : cleanRun C ctx m.stack items = true) (n : Nat) :
    cleanRun C ctx m.stack (items.take n) = true := by
  induction items generalizing m n with
  | nil => simpa using hclean
  | cons item items ih =>
      cases n with
      | zero => rfl
      | succ n =>
          obtain ⟨t, hstep, hrest⟩ := Except.foldlM_cons_ok_iff.mp h
          simp only [step, bind_eq_ok_iff, Prod.exists, Except.ok.injEq] at hstep
          obtain ⟨stack, queued, hitem, rfl⟩ := hstep
          rw [cleanRun_cons hitem, Bool.and_eq_true] at hclean
          rw [List.take_succ_cons, cleanRun_cons hitem, hclean.1, Bool.true_and]
          exact ih hrest hclean.2 n

/-- A run that succeeds also succeeds up to any point. -/
theorem run_take {items : List Item} {m m' : Machine} (h : items.foldlM (step C ctx) m = .ok m')
    (n : Nat) : ∃ t, (items.take n).foldlM (step C ctx) m = .ok t := by
  rw [← List.take_append_drop n items, List.foldlM_append, bind_eq_ok_iff] at h
  obtain ⟨t, ht, -⟩ := h
  exact ⟨t, ht⟩

theorem isOpSuccess_of_implemented {op : Opcode} (h : Bip342.implemented op = true) :
    Bip342.isOpSuccess op.toU8.toNat = false := by
  cases op with
  | pushnum n => decide +revert
  | booland => cases h
  | substr => cases h
  | checkmultisig => cases h
  | checkmultisigverify => cases h
  | other byte => cases h
  | _ => rfl

/-- The interpreter does not get past an OP_SUCCESSx. -/
theorem hasOpSuccess_of_run {items : List Item} {m m' : Machine}
    (h : items.foldlM (step C ctx) m = .ok m') : Bip342.hasOpSuccess items = false := by
  induction items generalizing m with
  | nil => rfl
  | cons item items ih =>
      obtain ⟨t, hstep, hrest⟩ := Except.foldlM_cons_ok_iff.mp h
      simp only [step, bind_eq_ok_iff, Prod.exists, Except.ok.injEq] at hstep
      obtain ⟨stack, queued, hitem, rfl⟩ := hstep
      unfold execItem at hitem
      split at hitem
      · simp at hitem
      · exact ih hrest
      · rw [Bip342.hasOpSuccess, isOpSuccess_of_implemented (implemented_of_execOp hitem)]
        exact ih hrest

theorem acceptsState_of_checkFinalStack (h : checkFinalStack stack = .ok ()) :
    Bip342.acceptsState (referenceState stack) = true := by
  unfold checkFinalStack at h
  split at h
  · rename_i item hitems
    split_ifs at h with htrue
    simp [Bip342.acceptsState, referenceState, hitems, ← isTruthy_eq, htrue]
  · simp at h

end Bip360Enforcer.Tapscript
