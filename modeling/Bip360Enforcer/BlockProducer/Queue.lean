import Bip360Enforcer.Bitcoin.Crypto
import Bip360Enforcer.Bitcoin.Weight
import Bip360Enforcer.Library.OrderMap

/-!
# P2MR spends that wait for a block template
-/

namespace Bip360Enforcer

abbrev Amount := UInt64

/-- Fully-signed P2MR spends with their fees, by the txid of the spend. -/
structure PendingP2mrSpends (C : Crypto) where
  spends : OrderMap Txid (Transaction × Amount)
  keyed : ∀ e ∈ spends.entries, C.computeTxid e.2.1 = e.1

namespace PendingP2mrSpends

variable {C : Crypto}

def empty : PendingP2mrSpends C := ⟨.empty, fun _ h => nomatch h⟩

def transactions (pending : PendingP2mrSpends C) : List Transaction :=
  pending.spends.values.map Prod.fst

def enqueueP2mrSpend (pending : PendingP2mrSpends C) (tx : Transaction) (fee : Amount) :
    PendingP2mrSpends C × Txid :=
  let txid := C.computeTxid tx
  ({ spends := pending.spends.insert txid (tx, fee)
     keyed := by
       rintro ⟨id, spend⟩ h
       rw [OrderMap.mem_insert] at h
       split at h
       · rename_i hid
         exact hid ▸ h ▸ rfl
       · exact pending.keyed _ h }, txid)

/-- Drop the spends that a block has mined. -/
def reapConfirmedP2mrSpends (pending : PendingP2mrSpends C) (block : Block) : PendingP2mrSpends C :=
  if pending.spends.isEmpty then pending
  else {
    spends := (block.txdata.map C.computeTxid).foldl OrderMap.swapRemove pending.spends
    keyed := fun _ h => pending.keyed _ ((OrderMap.mem_swapRemove_all _).mp h).2 }

end PendingP2mrSpends

/-! ## Block templates -/

/-- Space behind the transactions of a template, set aside for what is appended later. -/
inductive SuffixTxsItem where
  | reserved (weight : Nat)

def SuffixTxsItem.weight : SuffixTxsItem → Nat
  | reserved weight => weight

structure InitialBlockTemplate where
  suffixTxs : List SuffixTxsItem

structure FilledBlockTemplate where
  suffixTxs : List (Transaction × Amount)

variable {C : Crypto}

def initialBlockTemplate (pending : PendingP2mrSpends C) (template : InitialBlockTemplate) :
    InitialBlockTemplate :=
  let weights := pending.spends.values.map fun spend => spend.1.weight
  { template with suffixTxs := template.suffixTxs ++ weights.map .reserved }

def finalizeBlockTemplate (pending : PendingP2mrSpends C) (template : FilledBlockTemplate) :
    FilledBlockTemplate :=
  { template with suffixTxs := template.suffixTxs ++ pending.spends.values }

/-! ## What is in the queue -/

namespace PendingP2mrSpends

variable {pending : PendingP2mrSpends C} {tx tx' : Transaction} {fee : Amount} {block : Block}

theorem mem_transactions :
    tx ∈ pending.transactions ↔ ∃ fee, (C.computeTxid tx, tx, fee) ∈ pending.spends.entries := by
  constructor
  · intro h
    obtain ⟨⟨tx, fee⟩, hspend, rfl⟩ := List.mem_map.mp h
    obtain ⟨⟨id, _⟩, hentry, rfl⟩ := List.mem_map.mp hspend
    have hid : C.computeTxid tx = id := pending.keyed _ hentry
    exact ⟨fee, hid ▸ hentry⟩
  · rintro ⟨fee, h⟩
    exact List.mem_map.mpr ⟨_, List.mem_map.mpr ⟨_, h, rfl⟩, rfl⟩

theorem map_computeTxid_transactions :
    pending.transactions.map C.computeTxid = pending.spends.entries.map Prod.fst := by
  simp only [transactions, OrderMap.values, List.map_map]
  exact List.map_congr_left fun e he => pending.keyed e he

theorem transactions_nodup : pending.transactions.Nodup :=
  .of_map C.computeTxid (map_computeTxid_transactions ▸ pending.spends.nodup)

theorem eq_of_computeTxid_eq (h : tx ∈ pending.transactions) (h' : tx' ∈ pending.transactions)
    (hid : C.computeTxid tx = C.computeTxid tx') : tx = tx' :=
  List.inj_on_of_nodup_map (map_computeTxid_transactions ▸ pending.spends.nodup) h h' hid

@[simp]
theorem mem_transactions_empty : tx ∉ (empty : PendingP2mrSpends C).transactions := nofun

theorem mem_enqueueP2mrSpend :
    tx' ∈ (pending.enqueueP2mrSpend tx fee).1.transactions ↔
      if C.computeTxid tx' = C.computeTxid tx then tx' = tx else tx' ∈ pending.transactions := by
  simp only [mem_transactions, enqueueP2mrSpend, OrderMap.mem_insert]
  split <;> simp [*]

theorem mem_reapConfirmedP2mrSpends :
    tx' ∈ (pending.reapConfirmedP2mrSpends block).transactions ↔
      C.computeTxid tx' ∉ block.txdata.map C.computeTxid ∧ tx' ∈ pending.transactions := by
  unfold reapConfirmedP2mrSpends
  split
  · rename_i hempty
    have hnone : tx' ∉ pending.transactions := by
      simp [mem_transactions, List.isEmpty_iff.mp hempty]
    simp [hnone]
  · simp [mem_transactions, OrderMap.mem_swapRemove_all]

end PendingP2mrSpends

end Bip360Enforcer
