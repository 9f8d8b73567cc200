import Bip360Enforcer.Validator.BlockCache
import Bip360Enforcer.Validator.Lemmas.FileOrder

/-!
# The insertion order of the block cache stays in step with its blocks
-/

namespace Bip360Enforcer.Validator

variable {run : CacheRun} {blockHash : BlockHash} {block : Block}

namespace BlockCache

theorem evictLoop_of_lt {maxSize fuel : Nat} {order : List BlockHash} {blocks : HashDb Block}
    (h : blocks.entries.length < maxSize) : evictLoop maxSize fuel order blocks = some (order, blocks) := by
  cases fuel with
  | zero => exact if_pos h
  | succ fuel => cases order <;> exact if_pos h

end BlockCache

theorem CacheRun.maxSize_step (run : CacheRun) (call : CacheCall) :
    (run.step call).cache.maxSize = run.cache.maxSize := by
  cases call with
  | insert blockHash block => exact BlockCache.insert_maxSize run.cache blockHash block
  | remove blockHash =>
      rw [CacheRun.step]
      cases hremove : run.cache.remove blockHash with
      | none => rfl
      | some result => exact (BlockCache.remove_length_le hremove).1

theorem CacheRun.maxSize_steps (run : CacheRun) (calls : List CacheCall) :
    (run.steps calls).cache.maxSize = run.cache.maxSize := by
  induction calls generalizing run with
  | nil => rfl
  | cons call calls ih => exact (ih (run.step call)).trans (run.maxSize_step call)

/-! ## Invariant -/

/-- The insertion order lists the cached blocks, the ones added earlier first. -/
structure InStep (run : CacheRun) : Prop where
  nodup : run.cache.insertionOrder.Nodup
  keys : ∀ k, k ∈ run.cache.insertionOrder ↔ k ∈ run.cache.blocks
  length_le : run.cache.blocks.entries.length ≤ run.cache.maxSize
  sorted : run.cache.insertionOrder.Pairwise fun a b => run.added a < run.added b
  added_lt : ∀ k ∈ run.cache.insertionOrder, run.added k < run.calls

/-- What an insertion makes of the cache. -/
inductive Inserts (run : CacheRun) (blockHash : BlockHash) (block : Block) : BlockCache → Prop
  | present (h : blockHash ∈ run.cache.blocks) : Inserts run blockHash block run.cache
  | room (h : blockHash ∉ run.cache.blocks)
      (hroom : run.cache.blocks.entries.length < run.cache.maxSize) :
      Inserts run blockHash block
        { run.cache with
          blocks := run.cache.blocks.insert blockHash block
          insertionOrder := run.cache.insertionOrder ++ [blockHash] }
  /-- The one block that gives way is cached, and was added before all the others. -/
  | evicts (oldest : BlockHash) (later : List BlockHash) (h : blockHash ∉ run.cache.blocks)
      (hfull : run.cache.blocks.entries.length = run.cache.maxSize)
      (horder : run.cache.insertionOrder = oldest :: later) (hcached : oldest ∈ run.cache.blocks)
      (holdest : ∀ k ∈ run.cache.blocks, k ≠ oldest → run.added oldest < run.added k) :
      Inserts run blockHash block
        { run.cache with
          blocks := (run.cache.blocks.erase oldest).insert blockHash block
          insertionOrder := later ++ [blockHash] }

/-- What a removal returns, and what it makes of the cache. -/
inductive Removes (run : CacheRun) (blockHash : BlockHash) : Option Block → BlockCache → Prop
  | absent (h : blockHash ∉ run.cache.blocks) : Removes run blockHash none run.cache
  | present (block : Block) (h : run.cache.blocks.lookup blockHash = some block) :
      Removes run blockHash (some block)
        { run.cache with
          blocks := run.cache.blocks.erase blockHash
          insertionOrder := run.cache.insertionOrder.filter (· != blockHash) }

/-! ## Parts of a call -/

namespace InStep

theorem start (maxSize : Nat) (hpos : 0 < maxSize) : InStep (.start maxSize hpos) where
  nodup := List.nodup_nil
  keys k := by simp [CacheRun.start, BlockCache.new]
  length_le := Nat.zero_le _
  sorted := List.Pairwise.nil
  added_lt k hk := by cases hk

theorem order_length (h : InStep run) :
    run.cache.insertionOrder.length = run.cache.blocks.entries.length :=
  AList.length_eq_of_keys h.nodup h.keys

/-- The run whose cache has lost a block. -/
theorem discard (h : InStep run) (k : BlockHash) :
    InStep { run with
      cache := { run.cache with
        blocks := run.cache.blocks.erase k
        insertionOrder := run.cache.insertionOrder.erase k } } where
  nodup := h.nodup.erase k
  keys k' := by
    rw [h.nodup.mem_erase_iff, AList.mem_erase, h.keys k']
  length_le := (List.kerase_sublist k run.cache.blocks.entries).length_le.trans h.length_le
  sorted := h.sorted.sublist List.erase_sublist
  added_lt k' hk' := h.added_lt k' (List.mem_of_mem_erase hk')

/-- The run whose cache has got a block, which is the latest one. -/
theorem append (h : InStep run) (hmem : blockHash ∉ run.cache.blocks)
    (hroom : run.cache.blocks.entries.length < run.cache.maxSize) (block : Block) :
    InStep
      { cache := { run.cache with
          blocks := run.cache.blocks.insert blockHash block
          insertionOrder := run.cache.insertionOrder ++ [blockHash] }
        calls := run.calls + 1
        added := Function.update run.added blockHash run.calls } := by
  have hnew : blockHash ∉ run.cache.insertionOrder := mt (h.keys blockHash).mp hmem
  have hold : ∀ k ∈ run.cache.insertionOrder,
      Function.update run.added blockHash run.calls k = run.added k := by
    intro k hk
    apply Function.update_of_ne
    rintro rfl
    exact hnew hk
  have hkeys : ∀ k, k ∈ run.cache.insertionOrder ++ [blockHash] ↔
      k ∈ run.cache.blocks.insert blockHash block := by
    intro k
    rw [List.mem_append, List.mem_singleton, AList.mem_insert, h.keys k, or_comm]
  have hlength : (run.cache.blocks.insert blockHash block).entries.length ≤ run.cache.maxSize := by
    rw [AList.entries_insert_of_notMem hmem, List.length_cons]
    exact hroom
  have hsorted : (run.cache.insertionOrder ++ [blockHash]).Pairwise fun a b =>
      Function.update run.added blockHash run.calls a <
        Function.update run.added blockHash run.calls b := by
    apply List.pairwise_append.mpr
    refine ⟨h.sorted.imp_of_mem fun ha hb hlt => ?_, List.pairwise_singleton _ _, fun a ha b hb => ?_⟩
    · rwa [hold _ ha, hold _ hb]
    · obtain rfl := List.mem_singleton.mp hb
      rw [hold a ha, Function.update_self]
      exact h.added_lt a ha
  have hadded : ∀ k ∈ run.cache.insertionOrder ++ [blockHash],
      Function.update run.added blockHash run.calls k < run.calls + 1 := by
    intro k hk
    rcases List.mem_append.mp hk with hk | hk
    · rw [hold k hk]
      exact Nat.lt_succ_of_lt (h.added_lt k hk)
    · obtain rfl := List.mem_singleton.mp hk
      rw [Function.update_self]
      exact Nat.lt_succ_self run.calls
  exact ⟨List.nodup_append_comm.mp (List.nodup_cons.mpr ⟨hnew, h.nodup⟩), hkeys, hlength, hsorted, hadded⟩

/-! ## Eviction -/

/-- A full cache has a block to evict. -/
theorem full_cons (h : InStep run) (hfull : ¬ run.cache.blocks.entries.length < run.cache.maxSize) :
    ∃ oldest later, run.cache.insertionOrder = oldest :: later := by
  have hpos := run.cache.maxSize_pos
  have hlength := h.order_length
  cases horder : run.cache.insertionOrder with
  | nil =>
      rw [horder, List.length_nil] at hlength
      omega
  | cons oldest later => exact ⟨oldest, later, rfl⟩

section

variable {oldest : BlockHash} {later : List BlockHash}

theorem evicted (h : InStep run) (horder : run.cache.insertionOrder = oldest :: later) :
    InStep { run with
      cache := { run.cache with
        blocks := run.cache.blocks.erase oldest
        insertionOrder := later } } := by
  have hdiscard := h.discard oldest
  rwa [horder, List.erase_cons_head] at hdiscard

/-- After one eviction there is room. -/
theorem room_of_erase (h : InStep run) (horder : run.cache.insertionOrder = oldest :: later) :
    (run.cache.blocks.erase oldest).entries.length < run.cache.maxSize := by
  have hlater : later.length = (run.cache.blocks.erase oldest).entries.length :=
    (h.evicted horder).order_length
  have hlength := h.order_length
  have hle := h.length_le
  rw [horder, List.length_cons] at hlength
  omega

end

/-- The loop ends after one turn at most. -/
theorem evictLoop_eq (h : InStep run) (fuel : Nat) :
    BlockCache.evictLoop run.cache.maxSize (fuel + 1) run.cache.insertionOrder run.cache.blocks =
      some (BlockCache.evict run.cache.maxSize run.cache.insertionOrder run.cache.blocks) := by
  by_cases hroom : run.cache.blocks.entries.length < run.cache.maxSize
  · rw [BlockCache.evictLoop_of_lt hroom, BlockCache.evict_of_lt hroom]
  · obtain ⟨oldest, later, horder⟩ := h.full_cons hroom
    have hnext := h.room_of_erase horder
    rw [horder, BlockCache.evictLoop, if_neg hroom, BlockCache.evict, if_neg hroom,
      BlockCache.evictLoop_of_lt hnext, BlockCache.evict_of_lt hnext]

theorem insertLoop_eq (h : InStep run) (fuel : Nat) (blockHash : BlockHash) (block : Block) :
    run.cache.insertLoop (fuel + 1) blockHash block = some (run.cache.insert blockHash block) := by
  unfold BlockCache.insertLoop BlockCache.insert
  split
  · rfl
  · rw [h.evictLoop_eq fuel]
    rfl

/-! ## Calls -/

theorem inserts (h : InStep run) (blockHash : BlockHash) (block : Block) :
    Inserts run blockHash block (run.cache.insert blockHash block) := by
  unfold BlockCache.insert
  split
  · rename_i hmem
    exact .present hmem
  · rename_i hmem
    by_cases hroom : run.cache.blocks.entries.length < run.cache.maxSize
    · rw [BlockCache.evict_of_lt hroom]
      exact .room hmem hroom
    · obtain ⟨oldest, later, horder⟩ := h.full_cons hroom
      have hsorted := h.sorted
      rw [horder, List.pairwise_cons] at hsorted
      rw [horder, BlockCache.evict, if_neg hroom, BlockCache.evict_of_lt (h.room_of_erase horder)]
      refine .evicts oldest later hmem (le_antisymm h.length_le (Nat.le_of_not_lt hroom)) horder ?_ ?_
      · apply (h.keys oldest).mp
        rw [horder]
        exact List.mem_cons_self
      · intro k hk hne
        have hlater := (h.keys k).mpr hk
        rw [horder] at hlater
        exact hsorted.1 k ((List.mem_cons.mp hlater).resolve_left hne)

theorem removes (h : InStep run) (blockHash : BlockHash) :
    Removes run blockHash ((run.cache.remove blockHash).map Prod.fst)
      ((run.cache.remove blockHash).elim run.cache Prod.snd) := by
  unfold BlockCache.remove
  cases hlookup : run.cache.blocks.lookup blockHash with
  | none => exact .absent (AList.lookup_eq_none.mp hlookup)
  | some block =>
      have hremoved := Removes.present block hlookup
      rwa [← h.nodup.erase_eq_filter blockHash] at hremoved

/-- Calls that change nothing only count. -/
theorem count (h : InStep run) : InStep { run with calls := run.calls + 1 } :=
  ⟨h.nodup, h.keys, h.length_le, h.sorted, fun k hk => Nat.lt_succ_of_lt (h.added_lt k hk)⟩

theorem step (h : InStep run) (call : CacheCall) : InStep (run.step call) := by
  cases call with
  | insert blockHash block =>
      have hinserts := h.inserts blockHash block
      rw [CacheRun.step]
      generalize run.cache.insert blockHash block = cache at hinserts ⊢
      cases hinserts with
      | present hmem =>
          rw [if_pos hmem]
          exact h.count
      | room hmem hroom =>
          rw [if_neg hmem]
          exact h.append hmem hroom block
      | evicts oldest later hmem hfull horder hcached holdest =>
          have hmem' : blockHash ∉ run.cache.blocks.erase oldest :=
            fun hk => hmem (AList.mem_erase.mp hk).2
          rw [if_neg hmem]
          exact (h.evicted horder).append hmem' (h.room_of_erase horder) block
  | remove blockHash =>
      rw [CacheRun.step, BlockCache.remove]
      cases hlookup : run.cache.blocks.lookup blockHash with
      | none => exact h.count
      | some block => exact (h.discard blockHash).count

theorem steps (h : InStep run) (calls : List CacheCall) : InStep (run.steps calls) := by
  induction calls generalizing run with
  | nil => exact h
  | cons call calls ih => exact ih (h.step call)

end InStep

/-! ## Every run -/

/-- After any calls, the order and the blocks are in step, and so they stay: the next insertion ends,
evicts nothing or the block added first, and the next removal leaves nothing of its block behind. -/
theorem blockCache_inStep (maxSize : Nat) (hpos : 0 < maxSize) (calls : List CacheCall) :
    let run := (CacheRun.start maxSize hpos).steps calls
    run.cache.maxSize = maxSize ∧ InStep run ∧
    (∀ blockHash block, Inserts run blockHash block (run.cache.insert blockHash block) ∧
      ∀ fuel, run.cache.insertLoop (fuel + 1) blockHash block = some (run.cache.insert blockHash block)) ∧
    ∀ blockHash, Removes run blockHash ((run.cache.remove blockHash).map Prod.fst)
      ((run.cache.remove blockHash).elim run.cache Prod.snd) := by
  intro run
  have hrun : InStep run := (InStep.start maxSize hpos).steps calls
  refine ⟨CacheRun.maxSize_steps _ calls, hrun, fun blockHash block => ?_, hrun.removes⟩
  exact ⟨hrun.inserts blockHash block, fun fuel => hrun.insertLoop_eq fuel blockHash block⟩

/-- A block that is removed and added again outlives one added in between. -/
theorem blockCache_readded :
    let block : Block := ⟨⟨1, [], [], 0, 0, 0⟩, []⟩
    let run := (CacheRun.start 2 (by decide)).steps
      [.insert [1] block, .insert [2] block, .remove [1], .insert [1] block, .insert [3] block]
    InStep run ∧ run.cache.insertionOrder = [[1], [3]] :=
  ⟨(blockCache_inStep 2 (by decide) _).2.1, by decide⟩

end Bip360Enforcer.Validator
