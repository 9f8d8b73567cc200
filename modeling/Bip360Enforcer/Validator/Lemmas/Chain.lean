import Bip360Enforcer.Validator.Chain
import Bip360Enforcer.Validator.Lemmas.Index

/-!
# Walks along the stored headers
-/

namespace Bip360Enforcer.Validator

variable {C : Crypto} {headers : Set Header} {dbs : Dbs} {hashes : List BlockHash}
  {stored : HashDb Header}

theorem Linked.tail {blockHash : BlockHash} (h : Linked stored (blockHash :: hashes)) :
    Linked stored hashes := fun b below hb => h b below (hb.trans (List.suffix_cons _ _))

theorem Indexed.linked (h : Indexed C headers dbs hashes) : Linked dbs.header hashes :=
  fun b below hb => (h.entry b below hb).header

/-- No header is stored under the hash that stands for no block. -/
theorem Keyed.zeros (h : Keyed C headers dbs) (hhashes : HonestHashes C headers) :
    dbs.header.lookup .allZeros = none := by
  cases hlookup : dbs.header.lookup .allZeros with
  | none => rfl
  | some header =>
      obtain ⟨hmem, hhash⟩ := h _ _ hlookup
      exact absurd hhash (hhashes.nonzero header hmem)

theorem ancestorHeaders_linked {n : Nat} (hzeros : stored.lookup .allZeros = none)
    (h : Linked stored hashes) (hn : hashes.length ≤ n) :
    (ancestorHeaders stored n (hashes.head?.getD .allZeros)).map Prod.fst = hashes := by
  induction hashes generalizing n with
  | nil =>
      cases n with
      | zero => rfl
      | succ n => simp [ancestorHeaders, hzeros]
  | cons blockHash hashes ih =>
      cases n with
      | zero => simp at hn
      | succ n =>
          obtain ⟨header, hlookup, hprev⟩ := h blockHash hashes (List.suffix_refl _)
          simp only [List.head?_cons, Option.getD_some, ancestorHeaders, hlookup, List.map_cons, hprev]
          rw [ih h.tail (by simpa using hn)]

theorem Indexed.length_le (h : Indexed C headers dbs hashes) :
    hashes.length ≤ dbs.header.entries.length := by
  have hsubset : hashes ⊆ dbs.header.keys := by
    intro blockHash hin
    obtain ⟨above, below, hsplit⟩ := List.append_of_mem hin
    obtain ⟨header, hlookup, -⟩ := h.linked blockHash below ⟨above, hsplit.symm⟩
    exact AList.mem_keys.mp (AList.lookup_isSome.mp (by rw [hlookup]; rfl))
  have hlength := (List.subperm_of_subset h.nodup hsubset).length_le
  rwa [AList.keys, List.keys, List.length_map] at hlength

/-- The index spells the active chain. -/
theorem Indexed.activeChain_eq (h : Indexed C headers dbs hashes) (hhashes : HonestHashes C headers) :
    activeChain dbs = hashes := by
  have hwalk := ancestorHeaders_linked (Keyed.zeros h.keyed hhashes) h.linked h.length_le
  rw [activeChain, h.tip]
  cases hashes with
  | nil => rfl
  | cons tip below => exact hwalk

/-! ## Ancestors -/

/-- Where a walk back from the chain can come to. -/
def Trail (hashes : List BlockHash) (blockHash : BlockHash) : Prop :=
  blockHash ∈ hashes ∨ blockHash = .allZeros

theorem Linked.trail_head (hashes : List BlockHash) : Trail hashes (hashes.head?.getD .allZeros) := by
  cases hashes with
  | nil => exact .inr rfl
  | cons tip below => exact .inl List.mem_cons_self

theorem Linked.trail (h : Linked stored hashes) (hzeros : stored.lookup .allZeros = none)
    {blockHash : BlockHash} {header : Header} (ht : Trail hashes blockHash)
    (hlookup : stored.lookup blockHash = some header) : Trail hashes header.prevBlockhash := by
  rcases ht with hin | rfl
  · obtain ⟨above, below, hsplit⟩ := List.append_of_mem hin
    obtain ⟨header', hlookup', hprev⟩ := h blockHash below ⟨above, hsplit.symm⟩
    obtain rfl := Option.some.inj (hlookup.symm.trans hlookup')
    rw [hprev, hsplit]
    rcases Linked.trail_head below with hin | hzero
    · exact .inl (by simp [hin])
    · exact .inr hzero
  · rw [hzeros] at hlookup
    cases hlookup

theorem skipAncestors_trail (h : Linked stored hashes) (hzeros : stored.lookup .allZeros = none)
    {blockHash current found : BlockHash} {height n depth : Nat} (ht : Trail hashes current)
    (hok : skipAncestors stored blockHash height n depth current = .ok found) : Trail hashes found := by
  induction n generalizing depth current with
  | zero =>
      obtain rfl : current = found := by simpa [skipAncestors] using hok
      exact ht
  | succ n ih =>
      rw [skipAncestors] at hok
      cases hlookup : stored.lookup current with
      | none => simp [hlookup] at hok
      | some header =>
          rw [hlookup] at hok
          exact ih (h.trail hzeros ht hlookup) hok

theorem commonAncestor_trail (h : Linked stored hashes) (hzeros : stored.lookup .allZeros = none)
    {blockHash0 blockHash1 current0 current1 found : BlockHash} {height0 height1 n : Nat}
    (ht : Trail hashes current0)
    (hok : commonAncestor stored blockHash0 blockHash1 height0 height1 n current0 current1 = .ok found) :
    Trail hashes found := by
  induction n generalizing current0 current1 with
  | zero =>
      obtain rfl : BlockHash.allZeros = found := by simpa [commonAncestor] using hok
      exact .inr rfl
  | succ n ih =>
      rw [commonAncestor] at hok
      cases hlookup : stored.lookup current0 with
      | none => simp [hlookup] at hok
      | some header0 =>
          cases hlookup1 : stored.lookup current1 with
          | none => simp [hlookup, hlookup1] at hok
          | some header1 =>
              simp only [hlookup, hlookup1] at hok
              split at hok
              · obtain rfl : current0 = found := by simpa using hok
                exact ht
              · exact ih (h.trail hzeros ht hlookup) hok

/-- The last common ancestor of the tip and any other block is on the chain, or there is none. -/
theorem Indexed.lastCommonAncestor (h : Indexed C headers dbs hashes)
    (hhashes : HonestHashes C headers) {mainTip found : BlockHash}
    (hok : findLastCommonAncestor dbs (dbs.currentChainTip.getD .allZeros) mainTip = .ok found) :
    Trail hashes found := by
  have hzeros := Keyed.zeros h.keyed hhashes
  have hstart : Trail hashes (dbs.currentChainTip.getD .allZeros) := h.tip ▸ Linked.trail_head hashes
  unfold findLastCommonAncestor at hok
  split at hok
  · obtain rfl : dbs.currentChainTip.getD .allZeros = found := by simpa using hok
    exact hstart
  · split at hok
    · obtain rfl : BlockHash.allZeros = found := by simpa using hok
      exact .inr rfl
    · split at hok
      · obtain ⟨current0, h0, hok⟩ := Except.bind_eq_ok_iff.mp hok
        obtain ⟨current1, -, hok⟩ := Except.bind_eq_ok_iff.mp hok
        exact commonAncestor_trail h.linked hzeros (skipAncestors_trail h.linked hzeros hstart h0) hok
      · cases hok

end Bip360Enforcer.Validator
