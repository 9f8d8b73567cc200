import Bip360Enforcer.Validator.FileOrder
import Bip360Enforcer.Validator.Lemmas.Reachable

/-!
# The blocks of the files are taken in the order of the chain
-/

namespace Bip360Enforcer.Validator

variable {C : Crypto} {dir : BlocksDir} {missing : List BlockHash} {first : BlockHash}
  {delivered : List Block} {block : Block}

/-! ## Block cache -/

namespace BlockCache

theorem lookup_evict {maxSize : Nat} {order : List BlockHash} {blocks : HashDb Block} {hash : BlockHash}
    {block : Block} (h : (evict maxSize order blocks).2.lookup hash = some block) :
    blocks.lookup hash = some block := by
  induction order generalizing blocks with
  | nil => exact h
  | cons oldest order ih =>
      rw [evict] at h
      split at h
      · exact h
      · have herased := ih h
        by_cases hk : hash = oldest
        · subst hk
          rw [AList.lookup_erase] at herased
          cases herased
        · rwa [AList.lookup_erase_ne hk] at herased

theorem evict_of_lt {maxSize : Nat} {order : List BlockHash} {blocks : HashDb Block}
    (h : blocks.entries.length < maxSize) : evict maxSize order blocks = (order, blocks) := by
  cases order with
  | nil => rfl
  | cons oldest order => exact if_pos h

/-- What is found after an insertion is the new block or was there before. -/
theorem lookup_insert_cases {cache : BlockCache} {hash other : BlockHash} {block found : Block}
    (h : (cache.insert hash block).blocks.lookup other = some found) :
    (other = hash ∧ found = block) ∨ cache.blocks.lookup other = some found := by
  unfold BlockCache.insert at h
  split at h
  · exact .inr h
  · have hinserted : ((evict cache.maxSize cache.insertionOrder cache.blocks).2.insert hash block).lookup
        other = some found := h
    by_cases hk : other = hash
    · subst hk
      rw [AList.lookup_insert] at hinserted
      exact .inl ⟨rfl, (Option.some.inj hinserted).symm⟩
    · rw [AList.lookup_insert_ne hk] at hinserted
      exact .inr (lookup_evict hinserted)

/-- With room for the block, the insertion does not depend on the size of the cache. -/
theorem insert_of_room {cache cache' : BlockCache} {hash : BlockHash} {block : Block}
    (hroom : hash ∈ cache.blocks ∨ cache.blocks.entries.length < cache.maxSize)
    (hblocks : cache'.blocks = cache.blocks) (horder : cache'.insertionOrder = cache.insertionOrder)
    (hsize : cache.maxSize ≤ cache'.maxSize) :
    (cache'.insert hash block).blocks = (cache.insert hash block).blocks ∧
      (cache'.insert hash block).insertionOrder = (cache.insert hash block).insertionOrder := by
  unfold BlockCache.insert
  rw [hblocks]
  split
  · exact ⟨hblocks, horder⟩
  · rename_i hnotin
    have hlt := hroom.resolve_left hnotin
    rw [evict_of_lt hlt, evict_of_lt (Nat.lt_of_lt_of_le hlt hsize)]
    exact ⟨rfl, by rw [horder]⟩

theorem evict_length_le (maxSize : Nat) (order : List BlockHash) (blocks : HashDb Block) :
    (evict maxSize order blocks).2.entries.length ≤ blocks.entries.length := by
  induction order generalizing blocks with
  | nil => exact Nat.le_refl _
  | cons oldest order ih =>
      rw [evict]
      split
      · exact Nat.le_refl _
      · exact (ih (blocks.erase oldest)).trans (List.kerase_sublist oldest blocks.entries).length_le

theorem insert_length_le (cache : BlockCache) (hash : BlockHash) (block : Block) :
    (cache.insert hash block).blocks.entries.length ≤ cache.blocks.entries.length + 1 := by
  unfold BlockCache.insert
  split
  · exact Nat.le_succ _
  · have hevicted := evict_length_le cache.maxSize cache.insertionOrder cache.blocks
    have herased := (List.kerase_sublist hash
      (evict cache.maxSize cache.insertionOrder cache.blocks).2.entries).length_le
    exact Nat.succ_le_succ (herased.trans hevicted)

theorem insert_maxSize (cache : BlockCache) (hash : BlockHash) (block : Block) :
    (cache.insert hash block).maxSize = cache.maxSize := by
  unfold BlockCache.insert
  split <;> rfl

theorem remove_length_le {cache cache' : BlockCache} {hash : BlockHash} {block : Block}
    (h : cache.remove hash = some (block, cache')) :
    cache'.maxSize = cache.maxSize ∧ cache'.blocks.entries.length ≤ cache.blocks.entries.length := by
  obtain ⟨block', -, heq⟩ := Option.map_eq_some_iff.mp h
  cases heq
  exact ⟨rfl, (List.kerase_sublist hash cache.blocks.entries).length_le⟩

theorem remove_eq_some {cache cache' : BlockCache} {hash : BlockHash} {block : Block}
    (h : cache.remove hash = some (block, cache')) : cache.blocks.lookup hash = some block ∧
      ∀ other found, cache'.blocks.lookup other = some found → cache.blocks.lookup other = some found := by
  obtain ⟨block', hlookup, heq⟩ := Option.map_eq_some_iff.mp h
  cases heq
  refine ⟨hlookup, fun other found hfound => ?_⟩
  by_cases hk : other = hash
  · subst hk
    rw [AList.lookup_erase] at hfound
    cases hfound
  · rwa [AList.lookup_erase_ne hk] at hfound

theorem remove_eq_none {cache : BlockCache} {hash : BlockHash} (h : cache.remove hash = none) :
    cache.blocks.lookup hash = none := Option.map_eq_none_iff.mp h

end BlockCache

/-! ## The order of the blocks -/

namespace Taking

variable {st : Taking} {n maxIterations : Nat}

/-- The taken blocks are the first of those that were missing, and the rest is missing. -/
structure Ordered (C : Crypto) (missing : List BlockHash) (delivered : List Block) (st : Taking) : Prop where
  split : missing = st.missing ++ (hashesOf C st.taken).reverse
  taken : ∀ block ∈ st.taken, block ∈ delivered
  cache : ∀ hash block, st.cache.blocks.lookup hash = some block →
    C.blockHash block.header = hash ∧ block ∈ delivered

/-- The next block to take is not in the cache. -/
def Awaits (st : Taking) : Prop :=
  ∀ needed, st.missing.getLast? = some needed → st.cache.blocks.lookup needed = none

/-- The state between two blocks of the files. -/
structure Waiting (C : Crypto) (missing : List BlockHash) (first : BlockHash) (delivered : List Block)
    (st : Taking) : Prop extends Ordered C missing delivered st where
  awaits : st.Awaits
  unfound : st.hasFoundStart = false → st.missing.getLast? = some first

theorem Ordered.take (h : Ordered C missing delivered st)
    (hlast : st.missing.getLast? = some (C.blockHash block.header)) (hblock : block ∈ delivered) :
    Ordered C missing delivered (st.take block) where
  split := by
    have hsplit := List.dropLast_append_getLast? _ hlast
    rw [h.split]
    change st.missing ++ _ = st.missing.dropLast ++ (hashesOf C (st.taken ++ [block])).reverse
    conv_lhs => rw [← hsplit]
    simp [hashesOf]
  taken other hother := by
    rcases List.mem_append.mp hother with hother | hother
    · exact h.taken other hother
    · exact List.mem_singleton.mp hother ▸ hblock
  cache := h.cache

theorem Ordered.keep (h : Ordered C missing delivered st) (hblock : block ∈ delivered) :
    Ordered C missing delivered (st.keep C block) where
  split := h.split
  taken := h.taken
  cache hash found hfound := by
    rcases BlockCache.lookup_insert_cases hfound with ⟨rfl, rfl⟩ | hfound
    · exact ⟨rfl, hblock⟩
    · exact h.cache hash found hfound

theorem Awaits.keep (h : st.Awaits)
    (hne : ∀ needed, st.missing.getLast? = some needed → C.blockHash block.header ≠ needed) :
    (st.keep C block).Awaits := by
  intro needed hneeded
  cases hfound : (st.keep C block).cache.blocks.lookup needed with
  | none => rfl
  | some found =>
      rcases BlockCache.lookup_insert_cases hfound with ⟨heq, -⟩ | hfound
      · exact absurd heq.symm (hne needed hneeded)
      · rw [h needed hneeded] at hfound
        cases hfound

/-- One block taken from the cache, if it is there. -/
theorem takeCached_succ_cases (n : Nat) (st : Taking) : (st.takeCached (n + 1) = st ∧ st.Awaits) ∨
    ∃ block cache, st.missing.getLast?.bind st.cache.remove = some (block, cache) ∧
      st.takeCached (n + 1) = ({ st with cache := cache }.take block).takeCached n := by
  cases hfound : st.missing.getLast?.bind st.cache.remove with
  | none =>
      refine .inl ⟨by rw [takeCached, hfound], fun needed hneeded => ?_⟩
      rw [hneeded] at hfound
      exact BlockCache.remove_eq_none hfound
  | some found =>
      obtain ⟨block, cache⟩ := found
      exact .inr ⟨block, cache, rfl, by rw [takeCached, hfound]⟩

theorem Ordered.takeOne {cache : BlockCache} (h : Ordered C missing delivered st)
    (hfound : st.missing.getLast?.bind st.cache.remove = some (block, cache)) :
    Ordered C missing delivered ({ st with cache := cache }.take block) := by
  obtain ⟨hash, hlast, hremove⟩ := Option.bind_eq_some_iff.mp hfound
  obtain ⟨hlookup, hkept⟩ := BlockCache.remove_eq_some hremove
  obtain ⟨rfl, hblock⟩ := h.cache hash block hlookup
  have hremoved : Ordered C missing delivered { st with cache := cache } :=
    ⟨h.split, h.taken, fun other found hother => h.cache other found (hkept other found hother)⟩
  exact hremoved.take hlast hblock

theorem Ordered.takeCached (h : Ordered C missing delivered st) :
    Ordered C missing delivered (st.takeCached n) := by
  induction n generalizing st with
  | zero => exact h
  | succ n ih =>
      rcases takeCached_succ_cases n st with ⟨heq, -⟩ | ⟨block, cache, hfound, heq⟩
      · rwa [heq]
      · rw [heq]
        exact ih (h.takeOne hfound)

theorem takeCached_awaits (hn : st.missing.length ≤ n) : (st.takeCached n).Awaits := by
  induction n generalizing st with
  | zero =>
      intro needed hneeded
      rw [takeCached, List.eq_nil_of_length_eq_zero (Nat.le_zero.mp hn)] at hneeded
      cases hneeded
  | succ n ih =>
      rcases takeCached_succ_cases n st with ⟨heq, hawaits⟩ | ⟨block, cache, hfound, heq⟩
      · rwa [heq]
      · rw [heq]
        refine ih ?_
        change st.missing.dropLast.length ≤ n
        rw [List.length_dropLast]
        omega

theorem takeCached_hasFoundStart : (st.takeCached n).hasFoundStart = st.hasFoundStart := by
  induction n generalizing st with
  | zero => rfl
  | succ n ih =>
      rcases takeCached_succ_cases n st with ⟨heq, -⟩ | ⟨block, cache, -, heq⟩
      · rw [heq]
      · rw [heq, ih]
        rfl

/-- What can become of one block of the files. -/
inductive Reads (C : Crypto) (maxIterations : Nat) (first : BlockHash) (block : Block) (st : Taking) :
    Bool × Taking → Prop where
  | early (unfound : st.hasFoundStart = false) (other : C.blockHash block.header ≠ first) :
      Reads C maxIterations first block st (true, st.keep C block)
  | complete (none : st.missing.getLast? = none) :
      Reads C maxIterations first block st (false, { st with hasFoundStart := true })
  | expected (last : st.missing.getLast? = some (C.blockHash block.header)) :
      Reads C maxIterations first block st
        (true, ({ st with hasFoundStart := true, iterationsWithoutMatch := 0 }.take block).takeCached
          st.missing.dropLast.length)
  | other {expected : BlockHash} (last : st.missing.getLast? = some expected)
      (other : C.blockHash block.header ≠ expected) :
      Reads C maxIterations first block st
        (decide (st.iterationsWithoutMatch + 1 < maxIterations),
          { st.keep C block with
            hasFoundStart := true
            iterationsWithoutMatch := st.iterationsWithoutMatch + 1 })

theorem read_reads : Reads C maxIterations first block st (st.read C maxIterations first block) := by
  unfold Taking.read
  split
  · rename_i hstart
    exact .early hstart.1 hstart.2
  · split
    · rename_i hlast
      exact .complete hlast
    · rename_i expected hlast
      split
      · rename_i heq
        exact .expected (heq ▸ hlast)
      · rename_i hne
        exact .other hlast hne

theorem Waiting.reads {result : Bool × Taking} (h : Waiting C missing first delivered st)
    (hblock : block ∈ delivered) (hread : Reads C maxIterations first block st result) :
    Waiting C missing first delivered result.2 := by
  cases hread with
  | early unfound other =>
      refine ⟨h.toOrdered.keep hblock, h.awaits.keep fun needed hneeded heq => ?_, h.unfound⟩
      rw [h.unfound unfound] at hneeded
      exact other (heq.trans (Option.some.inj hneeded).symm)
  | complete none => exact ⟨⟨h.split, h.taken, h.cache⟩, h.awaits, fun hfalse => by cases hfalse⟩
  | expected last =>
      have hreset : Ordered C missing delivered
          { st with hasFoundStart := true, iterationsWithoutMatch := 0 } := ⟨h.split, h.taken, h.cache⟩
      refine ⟨(hreset.take last hblock).takeCached, takeCached_awaits (Nat.le_refl _), fun hfalse => ?_⟩
      rw [takeCached_hasFoundStart] at hfalse
      cases hfalse
  | other last other =>
      have hkept := h.toOrdered.keep hblock
      refine ⟨⟨hkept.split, hkept.taken, hkept.cache⟩, ?_, fun hfalse => by cases hfalse⟩
      refine Awaits.keep h.awaits fun needed hneeded heq => other (heq.trans ?_)
      exact Option.some.inj (hneeded.symm.trans last)

theorem Waiting.readAll {blocks : List Block} (h : Waiting C missing first delivered st)
    (hblocks : ∀ block ∈ blocks, block ∈ delivered) :
    Waiting C missing first delivered (st.readAll C dir first n blocks) := by
  induction blocks generalizing n st with
  | nil => exact h
  | cons block blocks ih =>
      rw [Taking.readAll]
      split
      · exact h
      · have hread := h.reads (hblocks block List.mem_cons_self)
          (@read_reads C first block st dir.config.maxIterationsWithoutMatch)
        split
        · rename_i st' heq
          rw [heq] at hread
          exact ih hread fun other hother => hblocks other (List.mem_cons_of_mem _ hother)
        · rename_i st' heq
          rw [heq] at hread
          exact hread

/-! ## What is taken in the end -/

/-- The state may come to take the blocks `final`. -/
structure Leads (st : Taking) (final : List Block) : Prop where
  more : st.taken <+: final
  complete : st.missing = [] → final = st.taken

variable {final : List Block}

theorem Leads.refl (st : Taking) : st.Leads st.taken := ⟨List.prefix_refl _, fun _ => rfl⟩

theorem Leads.of_take (h : (st.take block).Leads final) (hne : st.missing ≠ []) : st.Leads final :=
  ⟨(List.prefix_append _ _).trans h.more, fun hnil => absurd hnil hne⟩

theorem Leads.of_takeCached (h : (st.takeCached n).Leads final) : st.Leads final := by
  induction n generalizing st with
  | zero => exact h
  | succ n ih =>
      rcases takeCached_succ_cases n st with ⟨heq, -⟩ | ⟨block, cache, hfound, heq⟩
      · rwa [heq] at h
      · rw [heq] at h
        obtain ⟨hash, hlast, -⟩ := Option.bind_eq_some_iff.mp hfound
        have htaken := ih h
        have hne := List.ne_nil_of_mem (List.mem_of_getLast? hlast)
        exact ⟨(List.prefix_append _ _).trans htaken.more, fun hnil => absurd hnil hne⟩

theorem Leads.of_reads {result : Bool × Taking} (hread : Reads C maxIterations first block st result)
    (h : result.2.Leads final) : st.Leads final := by
  cases hread with
  | early _ _ => exact ⟨h.more, h.complete⟩
  | complete _ => exact ⟨h.more, h.complete⟩
  | expected last =>
      have htaken := h.of_takeCached.of_take (List.ne_nil_of_mem (List.mem_of_getLast? last))
      exact ⟨htaken.more, htaken.complete⟩
  | other _ _ => exact ⟨h.more, h.complete⟩

theorem leads_readAll {blocks : List Block} : st.Leads (st.readAll C dir first n blocks).taken := by
  induction blocks generalizing n st with
  | nil => exact .refl st
  | cons block blocks ih =>
      rw [Taking.readAll]
      split
      · exact .refl st
      · have hread : Reads C dir.config.maxIterationsWithoutMatch first block st _ := read_reads
        split
        · rename_i st' heq
          rw [heq] at hread
          exact .of_reads hread ih
        · rename_i st' heq
          rw [heq] at hread
          exact .of_reads hread (.refl st')

/-! ## Larger caches -/

/-- The states differ in the size of the cache only. -/
structure Enlarged (st st' : Taking) : Prop where
  missing : st'.missing = st.missing
  taken : st'.taken = st.taken
  blocks : st'.cache.blocks = st.cache.blocks
  order : st'.cache.insertionOrder = st.cache.insertionOrder
  size : st.cache.maxSize ≤ st'.cache.maxSize
  found : st'.hasFoundStart = st.hasFoundStart
  iterations : st'.iterationsWithoutMatch = st.iterationsWithoutMatch

namespace Enlarged

variable {st' : Taking}

theorem take (h : Enlarged st st') : Enlarged (st.take block) (st'.take block) :=
  ⟨congrArg List.dropLast h.missing, congrArg (· ++ [block]) h.taken, h.blocks, h.order, h.size, h.found,
    h.iterations⟩

theorem takeCached (h : Enlarged st st') : Enlarged (st.takeCached n) (st'.takeCached n) := by
  induction n generalizing st st' with
  | zero => exact h
  | succ n ih =>
      rw [Taking.takeCached, Taking.takeCached, h.missing]
      cases hlast : st.missing.getLast? with
      | none => exact h
      | some hash =>
          simp only [Option.bind_some, BlockCache.remove, h.blocks]
          cases st.cache.blocks.lookup hash with
          | none => exact h
          | some block =>
              exact ih (take ⟨rfl, h.taken, rfl, congrArg (List.erase · hash) h.order, h.size, h.found,
                h.iterations⟩)

theorem keep (h : Enlarged st st')
    (hroom : C.blockHash block.header ∈ st.cache.blocks ∨
      st.cache.blocks.entries.length < st.cache.maxSize) :
    Enlarged (st.keep C block) (st'.keep C block) := by
  obtain ⟨hblocks, horder⟩ := BlockCache.insert_of_room hroom h.blocks h.order h.size
  refine ⟨h.missing, h.taken, hblocks, horder, ?_, h.found, h.iterations⟩
  change (st.cache.insert _ _).maxSize ≤ (st'.cache.insert _ _).maxSize
  rw [BlockCache.insert_maxSize, BlockCache.insert_maxSize]
  exact h.size

theorem read (h : Enlarged st st')
    (hroom : st.Keeps C first block → C.blockHash block.header ∈ st.cache.blocks ∨
      st.cache.blocks.entries.length < st.cache.maxSize) :
    (st'.read C maxIterations first block).1 = (st.read C maxIterations first block).1 ∧
      Enlarged (st.read C maxIterations first block).2 (st'.read C maxIterations first block).2 := by
  unfold Taking.read
  rw [h.missing, h.found]
  split
  · rename_i hstart
    exact ⟨rfl, h.keep (hroom (.inl hstart))⟩
  · split
    · exact ⟨rfl, rfl, h.taken, h.blocks, h.order, h.size, rfl, h.iterations⟩
    · rename_i expected hlast
      split
      · exact ⟨rfl, takeCached (take ⟨rfl, h.taken, h.blocks, h.order, h.size, rfl, rfl⟩)⟩
      · rename_i hne
        have hkept := h.keep (hroom (.inr ⟨expected, hlast, hne⟩))
        rw [h.iterations]
        exact ⟨rfl, hkept.missing, hkept.taken, hkept.blocks, hkept.order, hkept.size, rfl, rfl⟩

theorem readAll {dir' : BlocksDir} {blocks : List Block}
    (hcancelled : dir'.cancelled = dir.cancelled)
    (hmax : dir'.config.maxIterationsWithoutMatch = dir.config.maxIterationsWithoutMatch)
    (h : Enlarged st st') (hroomy : st.Roomy C dir first n blocks) :
    Enlarged (st.readAll C dir first n blocks) (st'.readAll C dir' first n blocks) := by
  induction blocks generalizing n st st' with
  | nil => exact h
  | cons block blocks ih =>
      rw [Taking.readAll, Taking.readAll, hcancelled, hmax]
      split
      · exact h
      · rename_i hgoing
        obtain ⟨hroom, hrest⟩ := hroomy hgoing
        obtain ⟨hfst, hsnd⟩ := @read C first block st dir.config.maxIterationsWithoutMatch st' h hroom
        cases hread : st.read C dir.config.maxIterationsWithoutMatch first block with
        | mk all next =>
            cases hread' : st'.read C dir.config.maxIterationsWithoutMatch first block with
            | mk all' next' =>
                rw [hread, hread'] at hfst hsnd
                obtain rfl : all' = all := hfst
                cases all' with
                | true => exact ih hsnd (hrest next hread)
                | false => exact hsnd

end Enlarged

theorem takeCached_length_le : (st.takeCached n).cache.maxSize = st.cache.maxSize ∧
    (st.takeCached n).cache.blocks.entries.length ≤ st.cache.blocks.entries.length := by
  induction n generalizing st with
  | zero => exact ⟨rfl, Nat.le_refl _⟩
  | succ n ih =>
      rcases takeCached_succ_cases n st with ⟨heq, -⟩ | ⟨block, cache, hfound, heq⟩
      · rw [heq]
        exact ⟨rfl, Nat.le_refl _⟩
      · obtain ⟨hash, -, hremove⟩ := Option.bind_eq_some_iff.mp hfound
        obtain ⟨hsize, hlength⟩ := BlockCache.remove_length_le hremove
        obtain ⟨hsize', hlength'⟩ := @ih ({ st with cache := cache }.take block)
        rw [heq]
        exact ⟨hsize'.trans hsize, hlength'.trans hlength⟩

theorem Reads.length_le {result : Bool × Taking} (h : Reads C maxIterations first block st result) :
    result.2.cache.maxSize = st.cache.maxSize ∧
      result.2.cache.blocks.entries.length ≤ st.cache.blocks.entries.length + 1 := by
  have hkept : (st.keep C block).cache.maxSize = st.cache.maxSize ∧
      (st.keep C block).cache.blocks.entries.length ≤ st.cache.blocks.entries.length + 1 :=
    ⟨BlockCache.insert_maxSize _ _ _, BlockCache.insert_length_le _ _ _⟩
  cases h with
  | early _ _ => exact hkept
  | complete _ => exact ⟨rfl, Nat.le_succ _⟩
  | expected _ =>
      obtain ⟨hsize, hlength⟩ := @takeCached_length_le
        ({ st with hasFoundStart := true, iterationsWithoutMatch := 0 }.take block)
        st.missing.dropLast.length
      exact ⟨hsize, hlength.trans (Nat.le_succ _)⟩
  | other _ _ => exact hkept

/-- A cache that can hold all blocks of the files has room for each of them. -/
theorem roomy_of_length {blocks : List Block}
    (h : st.cache.blocks.entries.length + blocks.length ≤ st.cache.maxSize) :
    st.Roomy C dir first n blocks := by
  induction blocks generalizing n st with
  | nil => trivial
  | cons block blocks ih =>
      rw [List.length_cons] at h
      refine fun _ => ⟨fun _ => .inr (by omega), fun st' hread => ih ?_⟩
      have hreads := @read_reads C first block st dir.config.maxIterationsWithoutMatch
      rw [hread] at hreads
      obtain ⟨hsize, hlength⟩ : st'.cache.maxSize = st.cache.maxSize ∧
        st'.cache.blocks.entries.length ≤ st.cache.blocks.entries.length + 1 := hreads.length_le
      omega

end Taking

/-- Where the cache has room for all blocks that are kept, a larger cache takes the same blocks. -/
theorem takenBlocks_enlarged {dir' : BlocksDir} (hcancelled : dir'.cancelled = dir.cancelled)
    (hmax : dir'.config.maxIterationsWithoutMatch = dir.config.maxIterationsWithoutMatch)
    (hsize : dir.config.maxBlockCacheSize ≤ dir'.config.maxBlockCacheSize)
    (hroomy : (Taking.start dir missing).Roomy C dir first 0 delivered) :
    takenBlocks C dir' missing first delivered = takenBlocks C dir missing first delivered := by
  have hstart : Taking.Enlarged (.start dir missing) (.start dir' missing) :=
    ⟨rfl, rfl, rfl, rfl, hsize, rfl, rfl⟩
  exact (hstart.readAll hcancelled hmax hroomy).taken

end Bip360Enforcer.Validator
