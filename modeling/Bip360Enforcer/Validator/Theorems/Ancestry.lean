import Bip360Enforcer.Validator.Lemmas.Ancestry
import Bip360Enforcer.Validator.Lemmas.Programs

/-!
# The last common ancestor of two stored blocks
-/

namespace Bip360Enforcer.Validator

open Forest (LastCommon)

variable {dbs : Dbs} {ancestor blockHash blockHash0 blockHash1 current current0 current1 : BlockHash}
  {height height0 height1 n depth : Nat}

/-! ## The two walks -/

theorem IsLastCommonAncestor.unique {other : BlockHash}
    (h : IsLastCommonAncestor dbs blockHash0 blockHash1 ancestor)
    (hother : IsLastCommonAncestor dbs blockHash0 blockHash1 other) : other = ancestor := by
  rcases h with ⟨rfl, hnone⟩ | ⟨h0, h1, hlast⟩
  · rcases hother with ⟨rfl, -⟩ | ⟨h0, h1, -⟩
    · rfl
    · exact absurd h1 (hnone other h0)
  · rcases hother with ⟨rfl, hnone⟩ | ⟨h0', h1', hlast'⟩
    · exact absurd h1 (hnone ancestor h0)
    · rcases hlast other h0' h1' with heq | ⟨m, n, hm, hn, hlt⟩
      · exact heq
      · rcases hlast' ancestor h0 h1 with heq | ⟨n', m', hn', hm', hlt'⟩
        · exact heq.symm
        · rw [hm] at hm'
          rw [hn] at hn'
          cases hm'
          cases hn'
          omega

namespace HeaderForest

theorem lookup_of_level (h : HeaderForest dbs) (hblock : StoredOrZero dbs blockHash)
    (hlevel : levelOf dbs blockHash = n + 1) : ∃ header, dbs.header.lookup blockHash = some header := by
  rcases hblock with hsome | rfl
  · exact Option.isSome_iff_exists.mp hsome
  · rw [h.level_zero] at hlevel
    cases hlevel

theorem eq_zero_of_level (h : HeaderForest dbs) (hblock : StoredOrZero dbs blockHash)
    (hlevel : levelOf dbs blockHash = 0) : blockHash = .allZeros := by
  rcases hblock with hsome | hzero
  · obtain ⟨header, hstored⟩ := Option.isSome_iff_exists.mp hsome
    obtain ⟨height, -, hsucc⟩ := h.height_eq hstored
    omega
  · exact hzero

/-- Skipping ancestors of the longer chain leaves the last common ancestor as it is. -/
theorem skipAncestors (h : HeaderForest dbs) (blockHash : BlockHash) (height depth : Nat)
    (hcurrent : StoredOrZero dbs current)
    (hlevel : levelOf dbs current = levelOf dbs blockHash1 + n) :
    ∃ skipped, Validator.skipAncestors dbs.header blockHash height n depth current = .ok skipped ∧
      StoredOrZero dbs skipped ∧ levelOf dbs skipped = levelOf dbs blockHash1 ∧
      ∀ ancestor, LastCommon (parentOf dbs.header) ancestor skipped blockHash1 →
        LastCommon (parentOf dbs.header) ancestor current blockHash1 := by
  induction n generalizing depth current with
  | zero => exact ⟨current, rfl, hcurrent, hlevel, fun _ hcommon => hcommon⟩
  | succ n ih =>
      obtain ⟨header, hstored⟩ := h.lookup_of_level (n := levelOf dbs blockHash1 + n) hcurrent hlevel
      have hparent := parentOf_of_lookup hstored
      have hstep := h.graded _ _ hparent
      have hprev : levelOf dbs header.prevBlockhash = levelOf dbs blockHash1 + n := by omega
      obtain ⟨skipped, hrun, hskipped, hlevel', hcommon⟩ :=
        ih (depth + 1) (h.parent _ _ hstored).symm hprev
      refine ⟨skipped, ?_, hskipped, hlevel', fun ancestor ha => ?_⟩
      · rw [Validator.skipAncestors, hstored]
        exact hrun
      · exact LastCommon.of_parent h.graded hparent (by omega) (hcommon ancestor ha)

/-- From two blocks of one height, the walk comes to the last common ancestor. -/
theorem commonAncestor (h : HeaderForest dbs) (blockHash0 blockHash1 : BlockHash)
    (height0 height1 : Nat) (hcurrent0 : StoredOrZero dbs current0)
    (hcurrent1 : StoredOrZero dbs current1) (hlevel0 : levelOf dbs current0 = n)
    (hlevel1 : levelOf dbs current1 = n) :
    ∃ ancestor, Validator.commonAncestor dbs.header blockHash0 blockHash1 height0 height1 n current0
        current1 = .ok ancestor ∧
      StoredOrZero dbs ancestor ∧ LastCommon (parentOf dbs.header) ancestor current0 current1 := by
  induction n generalizing current0 current1 with
  | zero =>
      obtain rfl := h.eq_zero_of_level hcurrent0 hlevel0
      obtain rfl := h.eq_zero_of_level hcurrent1 hlevel1
      exact ⟨.allZeros, rfl, .inr rfl, .of_ancestor (.refl _)⟩
  | succ n ih =>
      obtain ⟨header0, hstored0⟩ := h.lookup_of_level hcurrent0 hlevel0
      obtain ⟨header1, hstored1⟩ := h.lookup_of_level hcurrent1 hlevel1
      rw [Validator.commonAncestor, hstored0, hstored1]
      by_cases heq : current0 = current1
      · subst heq
        exact ⟨current0, if_pos rfl, hcurrent0, .of_ancestor (.refl _)⟩
      · have hparent0 := parentOf_of_lookup hstored0
        have hparent1 := parentOf_of_lookup hstored1
        have hstep0 := h.graded _ _ hparent0
        have hstep1 := h.graded _ _ hparent1
        obtain ⟨ancestor, hrun, hancestor, hcommon⟩ := ih (h.parent _ _ hstored0).symm
          (h.parent _ _ hstored1).symm (by omega) (by omega)
        exact ⟨ancestor, (if_neg heq).trans hrun, hancestor,
          .of_parents h.graded hparent0 hparent1 (by omega) heq hcommon⟩

/-- The search finds the last common node of the tree. -/
theorem findLastCommonAncestor (h : HeaderForest dbs) (h0 : StoredOrZero dbs blockHash0)
    (h1 : StoredOrZero dbs blockHash1) :
    ∃ ancestor, Validator.findLastCommonAncestor dbs blockHash0 blockHash1 = .ok ancestor ∧
      StoredOrZero dbs ancestor ∧ LastCommon (parentOf dbs.header) ancestor blockHash0 blockHash1 := by
  unfold Validator.findLastCommonAncestor
  split
  · rename_i heq
    subst heq
    exact ⟨blockHash0, rfl, h0, .of_ancestor (.refl _)⟩
  · split
    · rename_i hzero
      rcases hzero with rfl | rfl
      · exact ⟨.allZeros, rfl, .inr rfl, .of_ancestor (h.zero_ancestor h1)⟩
      · exact ⟨.allZeros, rfl, .inr rfl, (LastCommon.of_ancestor (h.zero_ancestor h0)).symm⟩
    · rename_i hzero
      obtain ⟨hzero0, hzero1⟩ := not_or.mp hzero
      obtain ⟨header0, hstored0⟩ := Option.isSome_iff_exists.mp (h0.resolve_right hzero0)
      obtain ⟨header1, hstored1⟩ := Option.isSome_iff_exists.mp (h1.resolve_right hzero1)
      obtain ⟨height0, hheight0, hlevel0⟩ := h.height_eq hstored0
      obtain ⟨height1, hheight1, hlevel1⟩ := h.height_eq hstored1
      rw [hheight0, hheight1]
      -- One of the two walks to the smaller height is empty.
      have hskip : ∃ current0 current1,
          Validator.skipAncestors dbs.header blockHash0 height0 (height0 - height1) 0 blockHash0 =
            .ok current0 ∧
          Validator.skipAncestors dbs.header blockHash1 height1 (height1 - height0) 0 blockHash1 =
            .ok current1 ∧
          StoredOrZero dbs current0 ∧ StoredOrZero dbs current1 ∧
          levelOf dbs current0 = min height0 height1 + 1 ∧ levelOf dbs current1 = min height0 height1 + 1 ∧
          ∀ ancestor, LastCommon (parentOf dbs.header) ancestor current0 current1 →
            LastCommon (parentOf dbs.header) ancestor blockHash0 blockHash1 := by
        rcases Nat.le_total height0 height1 with hle | hle
        · have hlevel1' : levelOf dbs blockHash1 = levelOf dbs blockHash0 + (height1 - height0) := by omega
          obtain ⟨current1, hrun, hcurrent, hlevel, hcommon⟩ :=
            h.skipAncestors blockHash1 height1 0 h1 hlevel1'
          rw [Nat.sub_eq_zero_of_le hle]
          exact ⟨blockHash0, current1, rfl, hrun, h0, hcurrent, by omega, by omega,
            fun ancestor ha => (hcommon ancestor ha.symm).symm⟩
        · have hlevel0' : levelOf dbs blockHash0 = levelOf dbs blockHash1 + (height0 - height1) := by omega
          obtain ⟨current0, hrun, hcurrent, hlevel, hcommon⟩ :=
            h.skipAncestors blockHash0 height0 0 h0 hlevel0'
          rw [Nat.sub_eq_zero_of_le hle]
          exact ⟨current0, blockHash1, hrun, rfl, hcurrent, h1, by omega, by omega, hcommon⟩
      obtain ⟨current0, current1, hrun0, hrun1, hcurrent0, hcurrent1, hlevel0', hlevel1', hcommon⟩ := hskip
      obtain ⟨ancestor, hrun, hancestor, hlast⟩ := h.commonAncestor blockHash0 blockHash1
        height0 height1 hcurrent0 hcurrent1 hlevel0' hlevel1'
      refine ⟨ancestor, ?_, hancestor, hcommon ancestor hlast⟩
      change (do
        let current0 ← Validator.skipAncestors dbs.header blockHash0 height0 (height0 - height1) 0 blockHash0
        let current1 ← Validator.skipAncestors dbs.header blockHash1 height1 (height1 - height0) 0 blockHash1
        Validator.commonAncestor dbs.header blockHash0 blockHash1 height0 height1 (min height0 height1 + 1)
          current0 current1) = _
      rw [hrun0, hrun1]
      exact hrun

end HeaderForest

/-! ## The highest common ancestor -/

/-- Whatever the order of the two blocks, their highest common ancestor is found. -/
theorem lastCommonAncestor_highest (forest : HeaderForest dbs) (h0 : StoredOrZero dbs blockHash0)
    (h1 : StoredOrZero dbs blockHash1) :
    ∃ ancestor, IsLastCommonAncestor dbs blockHash0 blockHash1 ancestor ∧
      (∀ other, IsLastCommonAncestor dbs blockHash0 blockHash1 other → other = ancestor) ∧
      findLastCommonAncestor dbs blockHash0 blockHash1 = .ok ancestor ∧
      findLastCommonAncestor dbs blockHash1 blockHash0 = .ok ancestor ∧
      ∀ s : Store, s.dbs = dbs →
        lastCommonAncestor blockHash0 blockHash1 s =
          if s.fails then (.error (.db .io), s.next) else (.ok ancestor, s.next) := by
  obtain ⟨ancestor, hrun, hancestor, hcommon⟩ := forest.findLastCommonAncestor h0 h1
  obtain ⟨ancestor', hrun', -, hcommon'⟩ := forest.findLastCommonAncestor h1 h0
  have hlast := forest.isLastCommonAncestor hcommon hancestor
  have hsame : ancestor' = ancestor := hcommon'.symm.unique forest.graded hcommon
  refine ⟨ancestor, hlast, fun other hother => hlast.unique hother, hrun, hsame ▸ hrun',
    fun s hs => ?_⟩
  subst hs
  by_cases hfails : s.fails
  · simp only [lastCommonAncestor, read, access, Program.bind_apply, hfails, if_true]
    rfl
  · simp only [lastCommonAncestor, read, access, Program.bind_apply, hfails]
    exact Prod.ext hrun rfl

/-! A chain of two blocks and a block beside the second one. -/

def forkHeader (prevBlockhash : BlockHash) : Header := ⟨1, prevBlockhash, [], 0, 0, 0⟩

def forkedDbs : Dbs := { Dbs.empty with
  header := ⟨[⟨[1], forkHeader .allZeros⟩, ⟨[2], forkHeader [1]⟩, ⟨[3], forkHeader [1]⟩],
    by simp [List.NodupKeys, List.keys]⟩
  height := ⟨[⟨[1], 0⟩, ⟨[2], 1⟩, ⟨[3], 1⟩], by simp [List.NodupKeys, List.keys]⟩ }

theorem forkedDbs_forest : HeaderForest forkedDbs := by
  have hstored : ∀ blockHash header, forkedDbs.header.lookup blockHash = some header →
      (blockHash = [1] ∧ header = forkHeader .allZeros) ∨ (blockHash = [2] ∧ header = forkHeader [1]) ∨
        blockHash = [3] ∧ header = forkHeader [1] := by
    intro blockHash header h
    have hmem := AList.mem_lookup_iff.mp h
    simpa [forkedDbs] using hmem
  refine ⟨fun blockHash header h => ?_, fun blockHash header h => ?_, fun blockHash header h => ?_,
    fun blockHash header h => ?_⟩ <;>
    rcases hstored blockHash header h with ⟨rfl, rfl⟩ | ⟨rfl, rfl⟩ | ⟨rfl, rfl⟩ <;> decide

theorem forkedDbs_lastCommonAncestor :
    HeaderForest forkedDbs ∧ StoredOrZero forkedDbs [2] ∧ StoredOrZero forkedDbs [3] ∧
    ∃ ancestor, IsLastCommonAncestor forkedDbs [2] [3] ancestor ∧
      findLastCommonAncestor forkedDbs [2] [3] = .ok ancestor := by
  have h0 : StoredOrZero forkedDbs [2] := .inl (by decide)
  have h1 : StoredOrZero forkedDbs [3] := .inl (by decide)
  obtain ⟨ancestor, hlast, -, hrun, -⟩ := lastCommonAncestor_highest forkedDbs_forest h0 h1
  exact ⟨forkedDbs_forest, h0, h1, ancestor, hlast, hrun⟩

example : findLastCommonAncestor forkedDbs [2] [3] = .ok [1] := by decide

end Bip360Enforcer.Validator
