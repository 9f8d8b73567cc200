import Bip360Enforcer.Wallet.Transactions

/-!
# The order and the amounts of the listed transactions
-/

namespace Bip360Enforcer.Wallet

open FallbackOrder (PreorderOn compareBy preorderOn_compareBy_iff)

/-! ## The order -/

/-- The time by which a transaction is sorted, if it has one. -/
def ChainPosition.time : ChainPosition → Option UInt64
  | .confirmed confirmationTime => some confirmationTime
  | .unconfirmed _ lastSeen => lastSeen

theorem compareTransactions_eq : compareTransactions =
    compareBy (fun tx => tx.chainPosition.time) BDKWalletTransaction.txid := by
  funext a b
  obtain ⟨aTxid, aTx, aPosition, aFee, aReceived, aSent⟩ := a
  obtain ⟨bTxid, bTx, bPosition, bFee, bReceived, bSent⟩ := b
  cases aPosition with
  | confirmed aTime =>
      cases bPosition with
      | confirmed bTime => rfl
      | unconfirmed firstSeen lastSeen => cases lastSeen <;> rfl
  | unconfirmed firstSeen lastSeen =>
      cases bPosition with
      | confirmed bTime => cases lastSeen <;> rfl
      | unconfirmed firstSeen' lastSeen' =>
          cases lastSeen with
          | none => rfl
          | some seen => cases lastSeen' <;> rfl

/-- The transactions of a list are sorted by a total preorder exactly where, around each transaction
without a time, the times are in the order of the txids. -/
theorem compareTransactions_preorder_iff {txs : List BDKWalletTransaction} :
    PreorderOn compareTransactions txs ↔
      ∀ u ∈ txs, u.chainPosition.time = none → ∀ a ∈ txs, ∀ b ∈ txs, ∀ aTime bTime,
        a.chainPosition.time = some aTime → b.chainPosition.time = some bTime →
        (compare a.txid u.txid).isLE → (compare u.txid b.txid).isLE →
        compare aTime bTime = compare a.txid b.txid := by
  rw [compareTransactions_eq]
  exact preorderOn_compareBy_iff

/-! Two confirmed transactions, and one that has not been seen, with a txid between theirs. -/

def listedTransaction (n : Nat) (chainPosition : ChainPosition) : BDKWalletTransaction where
  txid := [n.toUInt8]
  tx := ⟨2, 0, [], []⟩
  chainPosition := chainPosition
  fee := 0
  received := 0
  sent := 0

/-- The first one is before the second one, and that before the third one, which is before the first. -/
theorem unseenTransaction_cycle :
    ¬ PreorderOn compareTransactions [listedTransaction 1 (.confirmed 20),
      listedTransaction 2 (.unconfirmed none none), listedTransaction 3 (.confirmed 10)] := by
  intro h
  have hlt := h.lt_trans (listedTransaction 1 (.confirmed 20)) (by simp)
    (listedTransaction 2 (.unconfirmed none none)) (by simp) (listedTransaction 3 (.confirmed 10)) (by simp)
    (by decide) (by decide)
  exact absurd hlt (by decide)

/-- Where the comparison is a total preorder, the transactions are listed, each of them, in the order of
their times. -/
theorem listWalletTransactions_chronological
    {sortBy : SortBy ListWalletTransactionsError BDKWalletTransaction} (hsort : sortBy.Stable)
    {isMine : Script → Bool} {getRawTransaction : Txid → Except ListWalletTransactionsError Transaction}
    {transactions : List TxDetails} {txs : List BDKWalletTransaction}
    (htxs : transactions.mapM (walletTransaction isMine getRawTransaction) = .ok txs)
    (hpreorder : PreorderOn compareTransactions txs) :
    ∃ listed, listWalletTransactions sortBy isMine getRawTransaction transactions = .ok listed ∧
      listed.Perm txs ∧
      listed.Pairwise fun a b => ∀ aTime ∈ a.chainPosition.time, ∀ bTime ∈ b.chainPosition.time,
        aTime ≤ bTime := by
  obtain ⟨listed, hlisted, hsorted⟩ := hsort.sorts hpreorder
  refine ⟨listed, Except.bind_eq_ok_iff.mpr ⟨txs, htxs, hlisted⟩, hsort.perm hlisted,
    hsorted.imp fun {a b} hle aTime haTime bTime hbTime => ?_⟩
  have hcompare : compareTransactions a b = compare aTime bTime := by
    rw [compareTransactions_eq]
    exact FallbackOrder.compareBy_keys haTime hbTime
  rw [hcompare] at hle
  exact Std.isLE_compare.mp hle

/-- Transactions that all have a time are sorted by a total preorder. -/
theorem preorderOn_of_seen {txs : List BDKWalletTransaction}
    (h : ∀ tx ∈ txs, tx.chainPosition.time ≠ none) : PreorderOn compareTransactions txs := by
  rw [compareTransactions_eq]
  exact preorderOn_compareBy_iff.mpr fun u hu hnone => absurd hnone (h u hu)

example : ∃ listed,
    listWalletTransactions SortBy.insertionSort (fun _ => true) (fun txid => .error (.fetchTransaction txid))
      [⟨[1], ⟨2, 0, [], []⟩, .confirmed 20⟩, ⟨[2], ⟨2, 0, [], []⟩, .unconfirmed none (some 10)⟩] = .ok listed ∧
    listed.Perm [listedTransaction 1 (.confirmed 20), listedTransaction 2 (.unconfirmed none (some 10))] ∧
    listed.Pairwise fun a b => ∀ aTime ∈ a.chainPosition.time, ∀ bTime ∈ b.chainPosition.time,
      aTime ≤ bTime :=
  listWalletTransactions_chronological SortBy.insertionSort_stable rfl
    (preorderOn_of_seen (by decide))

/-! ## The amounts -/

/-- The total of all amounts that can exist. -/
def maxMoney : Nat := 2_100_000_000_000_000

def totalValue (outputs : List TxOut) : Nat := (outputs.map fun output => output.value.toNat).sum

section

variable (isMine : Script → Bool)
  (getRawTransaction : Txid → Except ListWalletTransactionsError Transaction)

def mineValue (outputs : List TxOut) : Nat :=
  totalValue (outputs.filter fun output => isMine output.scriptPubkey)

/-- The inputs spend these outputs, all of which are found. -/
inductive Spends : List TxIn → List TxOut → Prop where
  | nil : Spends [] []
  | coinbase {input : TxIn} {inputs : List TxIn} {spent : List TxOut}
      (null : input.previousOutput.txid = Txid.allZeros) (rest : Spends inputs spent) :
      Spends (input :: inputs) spent
  | spend {input : TxIn} {inputs : List TxIn} {prevTx : Transaction} {output : TxOut} {spent : List TxOut}
      (named : input.previousOutput.txid ≠ Txid.allZeros)
      (fetched : getRawTransaction input.previousOutput.txid = .ok prevTx)
      (found : prevTx.output[input.previousOutput.vout.toNat]? = some output)
      (rest : Spends inputs spent) : Spends (input :: inputs) (output :: spent)

/-- A transaction that the wallet can hold, which spends these outputs. -/
structure Holdable (tx : Transaction) (spent : List TxOut) : Prop where
  spends : Spends getRawTransaction tx.input spent
  inputs : totalValue spent ≤ maxMoney
  outputs : totalValue tx.output ≤ maxMoney

/-- Every input is the wallet's. -/
structure AllMine (tx : Transaction) (spent : List TxOut) : Prop where
  named : ∀ input ∈ tx.input, input.previousOutput.txid ≠ Txid.allZeros
  mine : ∀ output ∈ spent, isMine output.scriptPubkey = true

end

variable {isMine : Script → Bool}
  {getRawTransaction : Txid → Except ListWalletTransactionsError Transaction} {ε : Type}
  {outputs spent : List TxOut} {inputs : List TxIn}

/-! ### Sums -/

theorem add_ok {a b : Amount} (h : a.toNat + b.toNat < 2 ^ 64) :
    ∃ sum, (Amount.add a b : MayPanic ε Amount) = .ok sum ∧ sum.toNat = a.toNat + b.toNat := by
  refine ⟨a + b, if_pos h, ?_⟩
  rw [UInt64.toNat_add, Nat.mod_eq_of_lt h]

theorem totalValue_cons {output : TxOut} :
    totalValue (output :: outputs) = output.value.toNat + totalValue outputs := by
  rw [totalValue, List.map_cons, List.sum_cons]
  rfl

theorem mineValue_cons {output : TxOut} : mineValue isMine (output :: outputs) =
    (if isMine output.scriptPubkey = true then output.value.toNat else 0) + mineValue isMine outputs := by
  rw [mineValue, List.filter_cons]
  split
  · exact totalValue_cons
  · exact (Nat.zero_add _).symm

theorem mineValue_le (isMine : Script → Bool) (outputs : List TxOut) :
    mineValue isMine outputs ≤ totalValue outputs := by
  induction outputs with
  | nil => exact Nat.le_refl _
  | cons output outputs ih =>
      rw [mineValue_cons, totalValue_cons]
      split <;> omega

theorem mineValue_eq (h : ∀ output ∈ outputs, isMine output.scriptPubkey = true) :
    mineValue isMine outputs = totalValue outputs := by
  rw [mineValue, List.filter_eq_self.mpr h]

theorem addIfMine_ok {amount : Amount} {output : TxOut}
    (h : amount.toNat + (if isMine output.scriptPubkey = true then output.value.toNat else 0) < 2 ^ 64) :
    ∃ sum, addIfMine isMine amount output = .ok sum ∧
      sum.toNat = amount.toNat + if isMine output.scriptPubkey = true then output.value.toNat else 0 := by
  unfold addIfMine
  split
  · rename_i hmine
    rw [if_pos hmine] at h
    exact add_ok h
  · exact ⟨amount, rfl, rfl⟩

/-- Sums that are in range after some outputs: the second one is over some of them only. -/
structure SumsTo (sums sums' : Amount × Amount) (isMine : Script → Bool) (outputs : List TxOut) : Prop where
  all : sums'.1.toNat = sums.1.toNat + totalValue outputs
  mine : sums'.2.toNat = sums.2.toNat + mineValue isMine outputs

theorem SumsTo.cons {sums sums' sums'' : Amount × Amount} {output : TxOut}
    (hall : sums'.1.toNat = sums.1.toNat + output.value.toNat)
    (hmine : sums'.2.toNat =
      sums.2.toNat + if isMine output.scriptPubkey = true then output.value.toNat else 0)
    (h : SumsTo sums' sums'' isMine outputs) : SumsTo sums sums'' isMine (output :: outputs) := by
  constructor
  · rw [h.all, hall, totalValue_cons, Nat.add_assoc]
  · rw [h.mine, hmine, mineValue_cons, Nat.add_assoc]

theorem foldlM_addOutput (isMine : Script → Bool) (sums : Amount × Amount) (hle : sums.2.toNat ≤ sums.1.toNat)
    (hrange : sums.1.toNat + totalValue outputs < 2 ^ 64) :
    ∃ sums', outputs.foldlM (addOutput isMine) sums = .ok sums' ∧ SumsTo sums sums' isMine outputs := by
  induction outputs generalizing sums with
  | nil => exact ⟨sums, rfl, rfl, rfl⟩
  | cons output outputs ih =>
      rw [totalValue_cons] at hrange
      have hif : (if isMine output.scriptPubkey = true then output.value.toNat else 0) ≤
          output.value.toNat := by split <;> omega
      have hvalue : sums.1.toNat + output.value.toNat < 2 ^ 64 := by omega
      obtain ⟨outputValue, hadd, hall⟩ := add_ok (ε := ListWalletTransactionsError) hvalue
      have hamount : (sums.2.toNat + if isMine output.scriptPubkey = true then output.value.toNat else 0) <
          2 ^ 64 := by omega
      obtain ⟨received, haddMine, hmine⟩ := addIfMine_ok hamount
      have hsumsLe : (outputValue, received).2.toNat ≤ (outputValue, received).1.toNat := by
        simp only
        omega
      obtain ⟨sums', hrun, hsums⟩ := ih _ hsumsLe (by simp only; omega)
      refine ⟨sums', ?_, hsums.cons hall hmine⟩
      rw [List.foldlM_cons, addOutput, hadd]
      simp only [bind, Except.bind, haddMine]
      exact hrun

theorem foldlM_addInput (isMine : Script → Bool) (h : Spends getRawTransaction inputs spent)
    (sums : Amount × Amount) (hle : sums.2.toNat ≤ sums.1.toNat)
    (hrange : sums.1.toNat + totalValue spent < 2 ^ 64) :
    ∃ sums', inputs.foldlM (addInput isMine getRawTransaction) sums = .ok sums' ∧
      SumsTo sums sums' isMine spent := by
  induction h generalizing sums with
  | nil => exact ⟨sums, rfl, rfl, rfl⟩
  | coinbase null _ ih =>
      obtain ⟨sums', hrun, hsums⟩ := ih sums hle hrange
      refine ⟨sums', ?_, hsums⟩
      rw [List.foldlM_cons, addInput, if_pos null]
      exact hrun
  | @spend input inputs prevTx output spent named fetched found _ ih =>
      rw [totalValue_cons] at hrange
      have hif : (if isMine output.scriptPubkey = true then output.value.toNat else 0) ≤
          output.value.toNat := by split <;> omega
      have hvalue : sums.1.toNat + output.value.toNat < 2 ^ 64 := by omega
      obtain ⟨inputValue, hadd, hall⟩ := add_ok (ε := ListWalletTransactionsError) hvalue
      have hamount : (sums.2.toNat + if isMine output.scriptPubkey = true then output.value.toNat else 0) <
          2 ^ 64 := by omega
      obtain ⟨sent, haddMine, hmine⟩ := addIfMine_ok hamount
      have hsumsLe : (inputValue, sent).2.toNat ≤ (inputValue, sent).1.toNat := by
        simp only
        omega
      obtain ⟨sums', hrun, hsums⟩ := ih _ hsumsLe (by simp only; omega)
      refine ⟨sums', ?_, hsums.cons hall hmine⟩
      have hindex : (MayPanic.index prevTx.output input.previousOutput.vout.toNat :
          MayPanic ListWalletTransactionsError TxOut) = .ok output := by
        unfold MayPanic.index
        rw [found]
      rw [List.foldlM_cons, addInput, if_neg named, fetched]
      simp only [MayPanic.lift, Except.mapError, bind, Except.bind, hindex, haddMine, hadd]
      exact hrun

/-! ### One transaction -/

theorem sub_ok_iff {a b c : Amount} :
    (Amount.sub a b : MayPanic ε Amount) = .ok c ↔ b.toNat ≤ a.toNat ∧ c.toNat = a.toNat - b.toNat := by
  unfold Amount.sub MayPanic.ensure
  split
  · rename_i hle
    have hle' : b.toNat ≤ a.toNat := UInt64.le_iff_toNat_le.mp hle
    rw [Except.ok.injEq, ← UInt64.toNat_sub_of_le a b hle, UInt64.toNat_inj]
    exact ⟨fun h => ⟨hle', h.symm⟩, fun h => h.2.symm⟩
  · rename_i hlt
    exact ⟨fun h => (by cases h), fun h => absurd (UInt64.le_iff_toNat_le.mpr h.1) hlt⟩

theorem checkedSub_toNat {a b : Amount} :
    ((Amount.checkedSub a b).getD 0).toNat = a.toNat - b.toNat := by
  unfold Amount.checkedSub
  split
  · rename_i hle
    exact UInt64.toNat_sub_of_le a b hle
  · rename_i hlt
    have hlt' : a.toNat < b.toNat := Nat.lt_of_not_le fun h => hlt (UInt64.le_iff_toNat_le.mpr h)
    rw [Nat.sub_eq_zero_of_le (Nat.le_of_lt hlt')]
    rfl

/-- The net change can be told where it is a gain, or a loss of at least the fee. -/
theorem netChange_ok_iff {received sent fee finalReceived finalSent : Amount} :
    netChange received sent fee = .ok (finalReceived, finalSent) ↔
      (sent.toNat ≤ received.toNat ∧ finalReceived.toNat = received.toNat - sent.toNat ∧
        finalSent = 0) ∨
      (received.toNat + fee.toNat ≤ sent.toNat ∧ received.toNat < sent.toNat ∧ finalReceived = 0 ∧
        finalSent.toNat = sent.toNat - received.toNat - fee.toNat) := by
  unfold netChange
  by_cases hle : sent ≤ received
  · have hle' := UInt64.le_iff_toNat_le.mp hle
    rw [if_pos hle]
    constructor
    · intro h
      obtain ⟨gain, hgain, hpair⟩ := Except.bind_eq_ok_iff.mp h
      obtain ⟨rfl, rfl⟩ := Prod.mk.inj (Except.ok.inj hpair)
      exact .inl ⟨hle', (sub_ok_iff.mp hgain).2, rfl⟩
    · rintro (⟨-, hgain, rfl⟩ | ⟨-, hlt, -⟩)
      · exact Except.bind_eq_ok_iff.mpr ⟨finalReceived, sub_ok_iff.mpr ⟨hle', hgain⟩, rfl⟩
      · omega
  · have hlt : received.toNat < sent.toNat :=
      Nat.lt_of_not_le fun h => hle (UInt64.le_iff_toNat_le.mpr h)
    rw [if_neg hle]
    constructor
    · intro h
      obtain ⟨loss, hloss, h⟩ := Except.bind_eq_ok_iff.mp h
      obtain ⟨rest, hrest, hpair⟩ := Except.bind_eq_ok_iff.mp h
      obtain ⟨rfl, rfl⟩ := Prod.mk.inj (Except.ok.inj hpair)
      obtain ⟨-, hloss⟩ := sub_ok_iff.mp hloss
      obtain ⟨hfee, hrest⟩ := sub_ok_iff.mp hrest
      exact .inr ⟨by omega, hlt, rfl, by omega⟩
    · rintro (⟨hle', -⟩ | ⟨hfee, -, rfl, hsent⟩)
      · omega
      · obtain ⟨loss, hloss⟩ : ∃ loss, (Amount.sub sent received : MayPanic ListWalletTransactionsError _) =
            .ok loss := ⟨sent - received, if_pos (UInt64.le_iff_toNat_le.mpr (Nat.le_of_lt hlt))⟩
        have hloss' := (sub_ok_iff.mp hloss).2
        exact Except.bind_eq_ok_iff.mpr ⟨loss, hloss, Except.bind_eq_ok_iff.mpr
          ⟨finalSent, sub_ok_iff.mpr ⟨by omega, by omega⟩, rfl⟩⟩

/-- The amounts of a listed transaction add up where every input is the wallet's. -/
def AmountsAddUp (isMine : Script → Bool) (tx : Transaction) (spent : List TxOut)
    (reported : BDKWalletTransaction) : Prop :=
  AllMine isMine tx spent →
    (reported.sent.toNat + reported.fee.toNat - reported.received.toNat : Int) =
      mineValue isMine spent - mineValue isMine tx.output

theorem netChange_defined_iff {received sent fee : Amount} :
    (∃ finalReceived finalSent, netChange received sent fee = .ok (finalReceived, finalSent)) ↔
      sent.toNat ≤ received.toNat ∨ received.toNat + fee.toNat ≤ sent.toNat := by
  constructor
  · rintro ⟨finalReceived, finalSent, hnet⟩
    rcases netChange_ok_iff.mp hnet with ⟨hle, -⟩ | ⟨hle, -⟩
    · exact .inl hle
    · exact .inr hle
  · intro h
    have hgain := checkedSub_toNat (a := received) (b := sent)
    have hloss : ((Amount.checkedSub ((Amount.checkedSub sent received).getD 0) fee).getD 0).toNat =
        sent.toNat - received.toNat - fee.toNat := by
      rw [checkedSub_toNat, checkedSub_toNat]
    by_cases hle : sent.toNat ≤ received.toNat
    · exact ⟨_, 0, netChange_ok_iff.mpr (.inl ⟨hle, hgain, rfl⟩)⟩
    · exact ⟨0, _, netChange_ok_iff.mpr (.inr ⟨h.resolve_left hle, Nat.lt_of_not_le hle, rfl, hloss⟩)⟩

/-- What the wallet sends and the fee are what it spends beyond what it receives. -/
theorem amountsAddUp {tx : Transaction} {reported : BDKWalletTransaction} {received sent : Amount}
    (hreceived : received.toNat = mineValue isMine tx.output) (hsent : sent.toNat = mineValue isMine spent)
    (hfee : reported.fee.toNat = totalValue spent - totalValue tx.output)
    (hnet : netChange received sent reported.fee = .ok (reported.received, reported.sent)) :
    AmountsAddUp isMine tx spent reported := by
  intro hall
  have hmine := mineValue_eq hall.mine
  have hle := mineValue_le isMine tx.output
  rcases netChange_ok_iff.mp hnet with ⟨hgain, hfinal, hzero⟩ | ⟨hfits, hloss, hzero, hfinal⟩
  · have hsentZero : reported.sent.toNat = 0 := by rw [hzero]; rfl
    omega
  · have hreceivedZero : reported.received.toNat = 0 := by rw [hzero]; rfl
    omega

/-- The amounts of a transaction are told, and add up, exactly where the wallet gains by it or loses at
least the fee of the whole transaction. -/
theorem walletTransaction_amounts_iff {details : TxDetails}
    (h : Holdable getRawTransaction details.tx spent) :
    (∃ reported, walletTransaction isMine getRawTransaction details = .ok reported ∧
        AmountsAddUp isMine details.tx spent reported) ↔
      mineValue isMine spent ≤ mineValue isMine details.tx.output ∨
        mineValue isMine details.tx.output + (totalValue spent - totalValue details.tx.output) ≤
          mineValue isMine spent := by
  have hmax : maxMoney < 2 ^ 64 := by decide
  obtain ⟨outputSums, houtputs, houtputAll, houtputMine⟩ := foldlM_addOutput isMine (0, 0)
    (Nat.le_refl _) (Nat.lt_of_le_of_lt ((Nat.zero_add _).le.trans h.outputs) hmax)
  obtain ⟨inputSums, hinputs, hinputAll, hinputMine⟩ := foldlM_addInput isMine h.spends (0, 0)
    (Nat.le_refl _) (Nat.lt_of_le_of_lt ((Nat.zero_add _).le.trans h.inputs) hmax)
  replace houtputMine := houtputMine.trans (Nat.zero_add _)
  replace hinputMine := hinputMine.trans (Nat.zero_add _)
  obtain ⟨fee, hfeeDef⟩ : ∃ fee, (Amount.checkedSub inputSums.1 outputSums.1).getD 0 = fee := ⟨_, rfl⟩
  have hfee : fee.toNat = totalValue spent - totalValue details.tx.output := by
    rw [← hfeeDef, checkedSub_toNat, hinputAll.trans (Nat.zero_add _), houtputAll.trans (Nat.zero_add _)]
  have hrun : walletTransaction isMine getRawTransaction details =
      netChange outputSums.2 inputSums.2 fee >>= fun net => .ok {
        txid := details.txid
        tx := details.tx
        chainPosition := details.chainPosition
        fee := fee
        received := net.1
        sent := net.2 } := by
    unfold walletTransaction outputValues inputValues
    rw [houtputs, hinputs, ← hfeeDef]
    rfl
  rw [hrun, ← houtputMine, ← hinputMine, ← hfee, ← netChange_defined_iff]
  constructor
  · rintro ⟨reported, hok, -⟩
    obtain ⟨⟨finalReceived, finalSent⟩, hnet, -⟩ := Except.bind_eq_ok_iff.mp hok
    exact ⟨finalReceived, finalSent, hnet⟩
  · rintro ⟨finalReceived, finalSent, hnet⟩
    exact ⟨_, Except.bind_eq_ok_iff.mpr ⟨_, hnet, rfl⟩, amountsAddUp houtputMine hinputMine hfee hnet⟩

/-! A transaction to which the wallet and another party contribute an output each. -/

def ownSpk : Script := [1]

def otherSpk : Script := [2]

def coinjoin : Transaction where
  version := 2
  lockTime := 0
  input := [⟨⟨[1], 0⟩, [], 0, []⟩, ⟨⟨[1], 1⟩, [], 0, []⟩]
  output := [⟨99_500, ownSpk⟩, ⟨190_000, otherSpk⟩]

def coinjoinSpent : List TxOut := [⟨100_000, ownSpk⟩, ⟨200_000, otherSpk⟩]

def fetchSpent (_ : Txid) : Except ListWalletTransactionsError Transaction :=
  .ok ⟨2, 0, [], coinjoinSpent⟩

theorem coinjoin_holdable : Holdable fetchSpent coinjoin coinjoinSpent where
  spends := .spend (by decide) rfl rfl (.spend (by decide) rfl rfl .nil)
  inputs := by decide
  outputs := by decide

/-- The wallet loses 500, and the fee is 10500. -/
theorem coinjoin_panics :
    Holdable fetchSpent coinjoin coinjoinSpent ∧
    walletTransaction (· == ownSpk) fetchSpent ⟨[3], coinjoin, .confirmed 0⟩ =
      .error (.panic .overflow) ∧
    ¬ ∃ reported, walletTransaction (· == ownSpk) fetchSpent ⟨[3], coinjoin, .confirmed 0⟩ = .ok reported ∧
      AmountsAddUp (· == ownSpk) coinjoin coinjoinSpent reported := by
  have hpanic : walletTransaction (· == ownSpk) fetchSpent ⟨[3], coinjoin, .confirmed 0⟩ =
      .error (.panic .overflow) := by decide
  refine ⟨coinjoin_holdable, hpanic, ?_⟩
  rintro ⟨reported, hok, -⟩
  rw [hpanic] at hok
  cases hok

/-- Were both outputs the wallet's, the amounts would be told. -/
theorem ownCoinjoin_amounts :
    ∃ reported, walletTransaction (fun _ => true) fetchSpent ⟨[3], coinjoin, .confirmed 0⟩ = .ok reported ∧
      AmountsAddUp (fun _ => true) coinjoin coinjoinSpent reported :=
  (@walletTransaction_amounts_iff (fun _ => true) fetchSpent coinjoinSpent ⟨[3], coinjoin, .confirmed 0⟩
    coinjoin_holdable).mpr (.inr (by decide))

end Bip360Enforcer.Wallet
