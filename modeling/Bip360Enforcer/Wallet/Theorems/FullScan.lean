import Bip360Enforcer.Wallet.FullScan
import Mathlib.Data.Nat.Find

/-!
# Which used addresses a full scan reveals
-/

namespace Bip360Enforcer.Wallet

variable {used : Nat → Bool} {bound fuel first low high greatest index : Nat}

/-- An answer of the chain source to every question. -/
def answers (used : Nat → Bool) (index : Nat) : Except FullScanError Bool := .ok (used index)

/-! ## Probes -/

/-- The probes at or below `greatest` of a binary search that ends right above it. -/
def probesBetween (greatest low high : Nat) : List Nat :=
  if h : low < high then
    let mid := low + (high - low) / 2
    if mid ≤ greatest then mid :: probesBetween greatest (mid + 1) high
    else probesBetween greatest low mid
  else []
termination_by high - low

/-- The probes at or below `greatest` where exactly the addresses up to `greatest` are used: one after
each step, and those between the last two steps. -/
def probesUpTo (greatest : Nat) : List Nat :=
  (List.range (greatest / step + 1)).map (step * ·) ++
    probesBetween greatest (step * (greatest / step)) (step * (greatest / step) + step)

/-! ## The two loops -/

theorem findUpperBound_succ : findUpperBound (answers used) (fuel + 1) first =
    if used first = true then findUpperBound (answers used) fuel (first + step) else .ok first := rfl

/-- Where used indices are bounded, the first loop ends at an unused index, all steps before it being at
used ones. -/
theorem findUpperBound_ok (hbound : ∀ i, used i = true → i < bound) (hfuel : bound - first < fuel) :
    ∃ steps, findUpperBound (answers used) fuel first = .ok (first + step * steps) ∧
      used (first + step * steps) = false ∧ ∀ i < steps, used (first + step * i) = true := by
  induction fuel generalizing first with
  | zero => exact absurd hfuel (Nat.not_lt_zero _)
  | succ fuel ih =>
      rw [findUpperBound_succ]
      cases hfirst : used first with
      | false => exact ⟨0, rfl, hfirst, fun i hi => absurd hi (Nat.not_lt_zero _)⟩
      | true =>
          have hlt := hbound first hfirst
          have hstep : step = 1000 := rfl
          have hless : bound - (first + step) < fuel := by omega
          obtain ⟨steps, hrun, hunused, hused⟩ := ih hless
          have hnext : ∀ i, first + step + step * i = first + step * (i + 1) := fun i => by
            rw [Nat.mul_succ]
            omega
          refine ⟨steps + 1, ?_, ?_, fun i hi => ?_⟩
          · rw [if_pos rfl, hrun, hnext]
          · rw [← hnext]
            exact hunused
          · cases i with
            | zero => exact hfirst
            | succ i =>
                rw [← hnext]
                exact hused i (Nat.lt_of_succ_lt_succ hi)

theorem binarySearch_lt (h : low < high) : binarySearch (answers used) low high =
    if used (low + (high - low) / 2) = true then
      binarySearch (answers used) (low + (high - low) / 2 + 1) high
    else binarySearch (answers used) low (low + (high - low) / 2) := by
  rw [binarySearch, dif_pos h]
  rfl

theorem probesBetween_lt (h : low < high) : probesBetween greatest low high =
    if low + (high - low) / 2 ≤ greatest then
      (low + (high - low) / 2) :: probesBetween greatest (low + (high - low) / 2 + 1) high
    else probesBetween greatest low (low + (high - low) / 2) := by
  rw [probesBetween, dif_pos h]

/-- The binary search ends at an unused index. -/
theorem binarySearch_ok (hle : low ≤ high) (hhigh : used high = false) :
    ∃ index, binarySearch (answers used) low high = .ok index ∧ index ≤ high ∧ used index = false := by
  obtain ⟨n, hn⟩ : ∃ n, high - low ≤ n := ⟨_, Nat.le_refl _⟩
  induction n generalizing low high with
  | zero =>
      obtain rfl : low = high := by omega
      exact ⟨low, by rw [binarySearch, dif_neg (Nat.lt_irrefl _)]; rfl, Nat.le_refl _, hhigh⟩
  | succ n ih =>
      by_cases hlt : low < high
      · rw [binarySearch_lt hlt]
        cases hmid : used (low + (high - low) / 2) with
        | true =>
            rw [if_pos rfl]
            have hle' : low + (high - low) / 2 + 1 ≤ high := by omega
            exact ih hle' hhigh (by omega)
        | false =>
            rw [if_neg Bool.false_ne_true]
            obtain ⟨index, hrun, hindex, hunused⟩ := ih (Nat.le_add_right _ _) hmid (by omega)
            exact ⟨index, hrun, by omega, hunused⟩
      · obtain rfl : low = high := by omega
        exact ⟨low, by rw [binarySearch, dif_neg hlt]; rfl, Nat.le_refl _, hhigh⟩

/-- The binary search gets to the greatest used index where all its probes up to there are used. -/
theorem binarySearch_greatest_iff (hgreatest : IsGreatest {i | used i = true} greatest)
    (hlow : low ≤ greatest + 1) (hhigh : greatest < high)
    (hrun : binarySearch (answers used) low high = .ok index) :
    greatest ≤ index ↔ ∀ probe ∈ probesBetween greatest low high, used probe = true := by
  have hunused : ∀ {i}, greatest < i → used i = false := by
    intro i hi
    cases hused : used i with
    | false => rfl
    | true => exact absurd (hgreatest.2 hused) (Nat.not_le_of_lt hi)
  obtain ⟨n, hn⟩ : ∃ n, high - low ≤ n := ⟨_, Nat.le_refl _⟩
  induction n generalizing low high with
  | zero =>
      have hlt : ¬ low < high := by omega
      rw [binarySearch, dif_neg hlt] at hrun
      rw [probesBetween, dif_neg hlt]
      obtain rfl := Except.ok.inj hrun
      exact ⟨fun _ _ hprobe => (by cases hprobe), fun _ => by omega⟩
  | succ n ih =>
      by_cases hlt : low < high
      · rw [binarySearch_lt hlt] at hrun
        rw [probesBetween_lt hlt]
        by_cases hmid : low + (high - low) / 2 ≤ greatest
        · rw [if_pos hmid, List.forall_mem_cons]
          cases hprobe : used (low + (high - low) / 2) with
          | true =>
              rw [hprobe, if_pos rfl] at hrun
              have hlow' : low + (high - low) / 2 + 1 ≤ greatest + 1 := by omega
              have hrest := ih hlow' hhigh hrun (by omega)
              exact ⟨fun h => ⟨rfl, hrest.mp h⟩, fun h => hrest.mpr h.2⟩
          | false =>
              rw [hprobe, if_neg Bool.false_ne_true] at hrun
              -- The search goes on below the greatest used index, and ends at an unused one.
              obtain ⟨index', hrun', hle, hindex⟩ :=
                binarySearch_ok (Nat.le_add_right low ((high - low) / 2)) hprobe
              obtain rfl := Except.ok.inj (hrun.symm.trans hrun')
              have hne : index ≠ greatest := by
                rintro rfl
                rw [show used index = true from hgreatest.1] at hindex
                cases hindex
              exact ⟨fun h => by omega, fun h => by cases h.1⟩
        · rw [if_neg hmid]
          rw [hunused (by omega), if_neg Bool.false_ne_true] at hrun
          exact ih hlow (by omega) hrun (by omega)
      · rw [binarySearch, dif_neg hlt] at hrun
        rw [probesBetween, dif_neg hlt]
        obtain rfl := Except.ok.inj hrun
        exact ⟨fun _ _ hprobe => (by cases hprobe), fun _ => by omega⟩

theorem le_of_mem_probesBetween {probe : Nat} (h : probe ∈ probesBetween greatest low high) :
    probe ≤ greatest := by
  obtain ⟨n, hn⟩ : ∃ n, high - low ≤ n := ⟨_, Nat.le_refl _⟩
  induction n generalizing low high with
  | zero =>
      rw [probesBetween, dif_neg (by omega)] at h
      cases h
  | succ n ih =>
      by_cases hlt : low < high
      · rw [probesBetween_lt hlt] at h
        split at h
        · rename_i hmid
          rcases List.mem_cons.mp h with rfl | hmem
          · exact hmid
          · exact ih hmem (by omega)
        · exact ih h (by omega)
      · rw [probesBetween, dif_neg hlt] at h
        cases h

/-! ## One keychain -/

theorem forall_probesUpTo : (∀ probe ∈ probesUpTo greatest, used probe = true) ↔
    (∀ i ≤ greatest / step, used (step * i) = true) ∧
    ∀ probe ∈ probesBetween greatest (step * (greatest / step)) (step * (greatest / step) + step),
      used probe = true := by
  simp only [probesUpTo, List.forall_mem_append, List.forall_mem_map, List.mem_range, Nat.lt_succ_iff]

/-- The scan of a keychain ends, and finds the greatest used index where all its probes up to there are
used. -/
theorem scanKeychain_ok (hbound : ∀ i, used i = true → i < bound) :
    ∃ index, (∀ fuel, bound < fuel → scanKeychain (answers used) fuel = .ok index) ∧
      ∀ greatest, IsGreatest {i | used i = true} greatest →
        (greatest ≤ index ↔ ∀ probe ∈ probesUpTo greatest, used probe = true) := by
  have hloop : ∀ fuel, bound < fuel → ∃ steps, findUpperBound (answers used) fuel 0 = .ok (step * steps) ∧
      used (step * steps) = false ∧ ∀ i < steps, used (step * i) = true := by
    intro fuel hfuel
    have hstart : bound - 0 < fuel := hfuel
    obtain ⟨steps, hsteps⟩ := findUpperBound_ok hbound hstart
    simp only [Nat.zero_add] at hsteps
    exact ⟨steps, hsteps⟩
  obtain ⟨steps, -, hunused, hused⟩ := hloop (bound + 1) (Nat.lt_succ_self _)
  obtain ⟨index, hrun, hindex, hindexUnused⟩ := binarySearch_ok (Nat.sub_le _ step) hunused
  refine ⟨index, fun fuel hfuel => ?_, fun greatest hgreatest => ?_⟩
  · obtain ⟨steps', hrun', hunused', hused'⟩ := hloop fuel hfuel
    have hsame : steps' = steps := by
      rcases Nat.lt_trichotomy steps' steps with hlt | heq | hlt
      · rw [hused _ hlt] at hunused'
        cases hunused'
      · exact heq
      · rw [hused' _ hlt] at hunused
        cases hunused
    rw [scanKeychain, hrun', hsame]
    exact hrun
  · have hne : index ≠ greatest := by
      rintro rfl
      rw [show used index = true from hgreatest.1] at hindexUnused
      cases hindexUnused
    have hfloor : step * (greatest / step) ≤ greatest := Nat.mul_div_le _ _
    have hceil : greatest < step * (greatest / step) + step := Nat.lt_mul_div_succ greatest (by decide)
    rw [forall_probesUpTo]
    by_cases hall : ∀ i ≤ greatest / step, used (step * i) = true
    · have hsteps : steps = greatest / step + 1 := by
        have hlt : greatest / step < steps := by
          by_contra hge
          rw [hall steps (Nat.le_of_not_lt hge)] at hunused
          cases hunused
        have hge : ¬ greatest / step + 1 < steps := by
          intro hlt'
          have hle : step * (greatest / step + 1) ≤ greatest := hgreatest.2 (hused _ hlt')
          rw [Nat.mul_succ] at hle
          omega
        omega
      rw [hsteps, Nat.mul_succ, Nat.add_sub_cancel] at hrun
      have hiff := binarySearch_greatest_iff hgreatest (Nat.le_succ_of_le hfloor) hceil hrun
      exact ⟨fun h => ⟨hall, hiff.mp h⟩, fun h => hiff.mpr h.2⟩
    · refine ⟨fun hle => ?_, fun h => absurd h.1 hall⟩
      obtain ⟨i, hi⟩ := not_forall.mp hall
      obtain ⟨hile, hiunused⟩ := Classical.not_imp.mp hi
      -- The first loop has stopped below the greatest used index.
      have hstepsle : steps ≤ i := by
        by_contra hlt
        exact hiunused (hused i (Nat.lt_of_not_le hlt))
      have hmul : step * steps ≤ step * (greatest / step) := Nat.mul_le_mul_left _ (hstepsle.trans hile)
      omega

/-! ## All keychains -/

theorem exists_greatest (hbound : ∀ i, used i = true → i < bound) {i : Nat} (hi : used i = true) :
    ∃ greatest, IsGreatest {i | used i = true} greatest :=
  ⟨Nat.findGreatest (fun i => used i = true) bound,
    Nat.findGreatest_spec (P := fun i => used i = true) (Nat.le_of_lt (hbound i hi)) hi,
    fun j hj => Nat.le_findGreatest (Nat.le_of_lt (hbound j hj)) hj⟩

/-- For every keychain, the addresses up to the greatest used one are revealed where the probes up to
there, which are the same as if there were no gaps, find used addresses only. -/
theorem fullScan_reveals_iff {κ : Type} {keychains : List κ} {used : κ → Nat → Bool}
    (finite : ∀ keychain index, used keychain index = true → index < bound) :
    ∃ revealMap : List (κ × Nat),
      (∀ fuel, bound < fuel →
        fullScan keychains (fun keychain => answers (used keychain)) fuel = .ok revealMap) ∧
      revealMap.map Prod.fst = keychains ∧
      ∀ keychain index, (keychain, index) ∈ revealMap →
        ((∀ i, used keychain i = true → i ≤ index) ↔
          ∀ greatest, IsGreatest {i | used keychain i = true} greatest →
            ∀ probe ∈ probesUpTo greatest, used keychain probe = true) := by
  induction keychains with
  | nil => exact ⟨[], fun _ _ => rfl, rfl, fun _ _ h => (by cases h)⟩
  | cons first keychains ih =>
      obtain ⟨revealMap, hrun, hkeys, hreveals⟩ := ih
      obtain ⟨index, hscan, hiff⟩ := scanKeychain_ok (finite first)
      refine ⟨(first, index) :: revealMap, fun fuel hfuel => ?_, by rw [List.map_cons, hkeys], ?_⟩
      · have hrest := hrun fuel hfuel
        unfold fullScan at hrest ⊢
        rw [List.mapM_cons, hscan fuel hfuel, hrest]
        rfl
      · intro keychain index' hmem
        rcases List.mem_cons.mp hmem with heq | hmem
        · cases heq
          refine ⟨fun h greatest hgreatest => (hiff greatest hgreatest).mp (h greatest hgreatest.1),
            fun h i hi => ?_⟩
          obtain ⟨greatest, hgreatest⟩ := exists_greatest (finite first) hi
          exact (hgreatest.2 hi).trans ((hiff greatest hgreatest).mpr (h greatest hgreatest))
        · exact hreveals keychain index' hmem

/-! Without gaps all used addresses are revealed; where the first address is not used, none is. -/

theorem threeUsed_revealed :
    ∃ revealMap : List (KeychainKind × Nat),
      (∀ fuel, 3 < fuel → fullScan [.external, .internal]
        (fun _ => answers fun index => decide (index < 3)) fuel = .ok revealMap) ∧
      revealMap.map Prod.fst = [.external, .internal] ∧
      ∀ keychain index, (keychain, index) ∈ revealMap → 2 ≤ index := by
  obtain ⟨revealMap, hrun, hkeys, hreveals⟩ := @fullScan_reveals_iff 3 KeychainKind
    [.external, .internal] (fun _ index => decide (index < 3)) fun _ _ h => of_decide_eq_true h
  refine ⟨revealMap, hrun, hkeys, fun keychain index hmem => ?_⟩
  refine (hreveals keychain index hmem).mpr (fun greatest hgreatest probe hprobe => ?_) 2 (by decide)
  have hlt : greatest < 3 := of_decide_eq_true hgreatest.1
  have hle : probe ≤ greatest := by
    rcases List.mem_append.mp hprobe with hstep | hbetween
    · obtain ⟨i, hi, rfl⟩ := List.mem_map.mp hstep
      exact (Nat.mul_le_mul_left _ (Nat.lt_succ_iff.mp (List.mem_range.mp hi))).trans (Nat.mul_div_le _ _)
    · exact le_of_mem_probesBetween hbetween
  exact decide_eq_true (hle.trans_lt hlt)

/-- Used indices are at most 20 apart, the first one below 20. -/
structure WithinGapLimit (used : Nat → Bool) : Prop where
  first : (∃ i, used i = true) → ∃ i < 20, used i = true
  next : ∀ i j, used i = true → used j = true → i < j → ∃ k, i < k ∧ k ≤ i + 20 ∧ used k = true

theorem sixthUsed_missed :
    WithinGapLimit (· == 5) ∧
    (∀ fuel, 0 < fuel → fullScan [KeychainKind.external] (fun _ => answers (· == 5)) fuel =
      .ok [(.external, 0)]) ∧
    ¬ ∀ i, (i == 5) = true → i ≤ 0 := by
  refine ⟨⟨fun _ => ⟨5, by decide, rfl⟩, fun i j hi hj hlt => ?_⟩, fun fuel hfuel => ?_, fun h => ?_⟩
  · have hi5 := beq_iff_eq.mp hi
    have hj5 := beq_iff_eq.mp hj
    omega
  · obtain ⟨fuel, rfl⟩ := Nat.exists_eq_succ_of_ne_zero (Nat.ne_of_gt hfuel)
    have hsearch : binarySearch (answers (· == 5)) (0 - step) 0 = .ok 0 := by
      rw [binarySearch, dif_neg (Nat.not_lt_zero _)]
      rfl
    have hscan : scanKeychain (answers (· == 5)) (fuel + 1) = .ok 0 := hsearch
    unfold fullScan
    rw [List.mapM_cons, hscan]
    rfl
  · exact absurd (h 5 rfl) (by decide)

end Bip360Enforcer.Wallet
