import Bip360Enforcer.BlockProducer.Queue

/-!
# The space reserved in a template and the spends that fill it
-/

namespace Bip360Enforcer

variable {C : Crypto} {pending : PendingP2mrSpends C} {tx tx' : Transaction} {id : Txid}

/-! ## Calls between the two phases -/

/-- The calls that can take the lock of the queue while a template is being filled. -/
inductive QueueCall where
  | enqueueP2mrSpend (tx : Transaction) (fee : Amount)
  | reapConfirmedP2mrSpends (block : Block)

namespace QueueCall

def run (pending : PendingP2mrSpends C) : QueueCall → PendingP2mrSpends C
  | enqueueP2mrSpend tx fee => (pending.enqueueP2mrSpend tx fee).1
  | reapConfirmedP2mrSpends block => pending.reapConfirmedP2mrSpends block

def Touches (C : Crypto) (id : Txid) : QueueCall → Prop
  | enqueueP2mrSpend tx _ => C.computeTxid tx = id
  | reapConfirmedP2mrSpends block => id ∈ block.txdata.map C.computeTxid

/-- What the call leaves under `id` is what `pending` has there. -/
def Restores (pending : PendingP2mrSpends C) (id : Txid) : QueueCall → Prop
  | enqueueP2mrSpend tx _ => tx ∈ pending.transactions
  | reapConfirmedP2mrSpends _ => id ∉ pending.transactions.map C.computeTxid

theorem mem_run_of_untouched {call : QueueCall} (h : ¬call.Touches C (C.computeTxid tx)) :
    tx ∈ (call.run pending).transactions ↔ tx ∈ pending.transactions := by
  cases call with
  | enqueueP2mrSpend tx' fee =>
      have hid : ¬C.computeTxid tx = C.computeTxid tx' := fun hid => h hid.symm
      rw [run, PendingP2mrSpends.mem_enqueueP2mrSpend, if_neg hid]
  | reapConfirmedP2mrSpends block =>
      rw [run, PendingP2mrSpends.mem_reapConfirmedP2mrSpends]
      exact and_iff_right h

end QueueCall

/-- For every spend, the last call about it leaves the queue as it was found. -/
def Settles (pending : PendingP2mrSpends C) (calls : List QueueCall) : Prop :=
  ∀ before call after id, calls = before ++ call :: after → call.Touches C id →
    (∀ later ∈ after, ¬later.Touches C id) → call.Restores pending id

theorem mem_foldl_run_of_untouched {calls : List QueueCall}
    (h : ∀ call ∈ calls, ¬call.Touches C (C.computeTxid tx)) :
    tx ∈ (calls.foldl QueueCall.run pending).transactions ↔ tx ∈ pending.transactions := by
  induction calls generalizing pending with
  | nil => exact Iff.rfl
  | cons call calls ih =>
      rw [List.forall_mem_cons] at h
      exact (ih h.2).trans (QueueCall.mem_run_of_untouched h.1)

theorem mem_foldl_run_last {before after : List QueueCall} {call : QueueCall}
    (h : ∀ later ∈ after, ¬later.Touches C (C.computeTxid tx)) :
    tx ∈ ((before ++ call :: after).foldl QueueCall.run pending).transactions ↔
      tx ∈ (call.run (before.foldl QueueCall.run pending)).transactions := by
  rw [List.foldl_append, List.foldl_cons]
  exact mem_foldl_run_of_untouched h

/-- The last item of a list with some property. -/
theorem exists_last {α : Type} {p : α → Prop} {l : List α} (h : ∃ a ∈ l, p a) :
    ∃ before a after, l = before ++ a :: after ∧ p a ∧ ∀ b ∈ after, ¬p b := by
  induction l with
  | nil => simp at h
  | cons a l ih =>
      by_cases hl : ∃ b ∈ l, p b
      · obtain ⟨before, b, after, rfl, hb, hafter⟩ := ih hl
        exact ⟨a :: before, b, after, rfl, hb, hafter⟩
      · obtain ⟨b, hb, hpb⟩ := h
        rcases List.mem_cons.mp hb with rfl | hb
        · exact ⟨[], b, l, rfl, hpb, fun c hc hpc => hl ⟨c, hc, hpc⟩⟩
        · exact absurd ⟨b, hb, hpb⟩ hl

theorem mem_of_settles {calls : List QueueCall} (h : Settles pending calls) :
    tx ∈ (calls.foldl QueueCall.run pending).transactions ↔ tx ∈ pending.transactions := by
  by_cases htouched : ∃ call ∈ calls, call.Touches C (C.computeTxid tx)
  · obtain ⟨before, call, after, rfl, htouch, hafter⟩ := exists_last htouched
    have hrestores := h before call after _ rfl htouch hafter
    rw [mem_foldl_run_last hafter]
    cases call with
    | enqueueP2mrSpend tx' fee =>
        have hid : C.computeTxid tx = C.computeTxid tx' := htouch.symm
        rw [QueueCall.run, PendingP2mrSpends.mem_enqueueP2mrSpend, if_pos hid]
        constructor
        · rintro rfl
          exact hrestores
        · exact fun hmem => PendingP2mrSpends.eq_of_computeTxid_eq hmem hrestores hid
    | reapConfirmedP2mrSpends block =>
        have hnotin : tx ∉ pending.transactions := fun hmem => hrestores (List.mem_map_of_mem hmem)
        rw [QueueCall.run, PendingP2mrSpends.mem_reapConfirmedP2mrSpends]
        exact iff_of_false (fun hmem => hmem.1 htouch) hnotin
  · exact mem_foldl_run_of_untouched fun call hcall htouch => htouched ⟨call, hcall, htouch⟩

theorem settles_of_mem {calls : List QueueCall}
    (h : ∀ tx, tx ∈ (calls.foldl QueueCall.run pending).transactions ↔ tx ∈ pending.transactions) :
    Settles pending calls := by
  rintro before call after id rfl htouch hafter
  cases call with
  | enqueueP2mrSpend tx fee =>
      obtain rfl : C.computeTxid tx = id := htouch
      apply (h tx).mp
      rw [mem_foldl_run_last hafter, QueueCall.run, PendingP2mrSpends.mem_enqueueP2mrSpend, if_pos rfl]
  | reapConfirmedP2mrSpends block =>
      intro hid
      obtain ⟨tx, hmem, rfl⟩ := List.mem_map.mp hid
      have hlater := (h tx).mpr hmem
      rw [mem_foldl_run_last hafter, QueueCall.run,
        PendingP2mrSpends.mem_reapConfirmedP2mrSpends] at hlater
      exact hlater.1 htouch

/-! ## A template round -/

/-- The weight of what `initialBlockTemplate` adds to a template. -/
def reservedWeight (pending : PendingP2mrSpends C) (template : InitialBlockTemplate) : Nat :=
  let items := (initialBlockTemplate pending template).suffixTxs.drop template.suffixTxs.length
  (items.map SuffixTxsItem.weight).sum

/-- The transactions that `finalizeBlockTemplate` adds to a template. -/
def appendedTransactions (pending : PendingP2mrSpends C) (template : FilledBlockTemplate) :
    List Transaction :=
  ((finalizeBlockTemplate pending template).suffixTxs.drop template.suffixTxs.length).map Prod.fst

theorem reservedWeight_eq (template : InitialBlockTemplate) :
    reservedWeight pending template = (pending.transactions.map Transaction.weight).sum := by
  simp [reservedWeight, initialBlockTemplate, PendingP2mrSpends.transactions, Function.comp_def,
    SuffixTxsItem.weight]

theorem appendedTransactions_eq (template : FilledBlockTemplate) :
    appendedTransactions pending template = pending.transactions := by
  simp [appendedTransactions, finalizeBlockTemplate, PendingP2mrSpends.transactions]

/-- What the queue `later` appends to `filled` is what `pending` has reserved in `initial`. -/
structure FillsReservation (pending later : PendingP2mrSpends C) (initial : InitialBlockTemplate)
    (filled : FilledBlockTemplate) : Prop where
  weight : ((appendedTransactions later filled).map Transaction.weight).sum ≤
    reservedWeight pending initial
  accounted : ∀ tx, tx ∈ appendedTransactions later filled ↔ tx ∈ pending.transactions
  once : (appendedTransactions later filled).Nodup

theorem fillsReservation_iff (calls : List QueueCall) (initial : InitialBlockTemplate)
    (filled : FilledBlockTemplate) :
    FillsReservation pending (calls.foldl QueueCall.run pending) initial filled ↔
      Settles pending calls := by
  constructor
  · intro h
    apply settles_of_mem
    intro tx
    rw [← h.accounted tx, appendedTransactions_eq]
  · intro h
    have hmem : ∀ tx, tx ∈ (calls.foldl QueueCall.run pending).transactions ↔
        tx ∈ pending.transactions := fun tx => mem_of_settles h
    have hperm : (calls.foldl QueueCall.run pending).transactions.Perm pending.transactions :=
      (List.perm_ext_iff_of_nodup PendingP2mrSpends.transactions_nodup
        PendingP2mrSpends.transactions_nodup).mpr hmem
    constructor
    · rw [appendedTransactions_eq, reservedWeight_eq, (hperm.map Transaction.weight).sum_eq]
    · simpa only [appendedTransactions_eq] using hmem
    · rw [appendedTransactions_eq]
      exact PendingP2mrSpends.transactions_nodup

def queuedTx : Transaction where
  version := 2
  lockTime := 0
  input := [⟨⟨List.replicate 32 1, 0⟩, [], 0xfffffffd, [[1], [0x51], 0xc1 :: List.replicate 32 0]⟩]
  output := [⟨1000, 0x52 :: 0x20 :: List.replicate 32 0⟩]

theorem queuedTx_unreserved :
    ¬ ∀ (C : Crypto) (pending : PendingP2mrSpends C) (calls : List QueueCall)
      (initial : InitialBlockTemplate) (filled : FilledBlockTemplate),
      FillsReservation pending (calls.foldl QueueCall.run pending) initial filled := by
  intro h
  have hweight := (h .sample .empty [.enqueueP2mrSpend queuedTx 400] ⟨[]⟩ ⟨[]⟩).weight
  revert hweight
  decide

end Bip360Enforcer
