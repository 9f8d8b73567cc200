import Bip360Enforcer.Pqc.LeafReading
import Bip360Enforcer.Pqc.Lemmas.Spend

/-!
# When a leaf's keys are the ones that it names
-/

namespace Bip360Enforcer.Pqc

open Except (bind_eq_ok_iff map_eq_ok_iff ite_error_eq_ok_iff foldlM_cons_ok_iff)

variable {st st' : TrackedState} {segment : List Entry} {item : Item} {next : Nat} {opcode : Opcode}

/-! ## Forgetting the places -/

theorem validateKeys_cons (key : Push) (keys : List Push) : validateKeys (key :: keys) =
    validatePubkeySize key.data >>= fun _ => validateKeys keys := by
  rw [validateKeys, List.forM_eq_forM, List.forM_cons]
  rfl

theorem foldlM_pushSingleSigSite (keys : List Push) (opcode : Opcode) (sites : List SigCheckSite) :
    (keys.map Push.data).foldlM (pushSingleSigSite opcode) sites =
      (validateKeys keys).map fun _ => sites ++ keys.map fun key => ⟨key.data, opcode⟩ := by
  induction keys generalizing sites with
  | nil => exact congrArg Except.ok (List.append_nil _).symm
  | cons key keys ih =>
      rw [List.map_cons, List.foldlM_cons, validateKeys_cons, pushSingleSigSite]
      cases validatePubkeySize key.data with
      | error e => rfl
      | ok _ =>
          refine (ih _).trans ?_
          simp [bind, Except.bind]

theorem erase_addCheck {check : SigCheck} {pushBuffer : List Push} :
    (st.addCheck check pushBuffer).erase =
      ⟨st.erase.sigSites ++ check.sites, none, pushBuffer.map Push.data, none⟩ := by
  simp [TrackedState.addCheck, TrackedState.erase]

theorem trackMultisig_erase {keyCount place : Nat} :
    (trackMultisig st keyCount place opcode).map TrackedState.erase =
      (pushMultisigSites { st.erase with pendingMultisigKeys := none } keyCount opcode).map
        fun st => { st with lastPush := none } := by
  have hlen : st.erase.pushBuffer.length = st.pushBuffer.length := List.length_map _
  have hdrop : ∀ n, st.erase.pushBuffer.drop n = (st.pushBuffer.drop n).map Push.data :=
    fun n => (List.map_drop ..).symm
  have htake : ∀ n, st.erase.pushBuffer.take n = (st.pushBuffer.take n).map Push.data :=
    fun n => (List.map_take ..).symm
  simp only [trackMultisig, pushMultisigSites, hlen, hdrop, htake, foldlM_pushSingleSigSite]
  split
  · rfl
  · cases validateKeys (st.pushBuffer.drop (st.pushBuffer.length - keyCount)) with
    | error e => rfl
    | ok _ =>
        simp only [bind, Except.bind, Except.map, erase_addCheck]
        rfl

theorem trackSigCheck_erase {place : Nat} :
    (trackSigCheck st opcode place).map TrackedState.erase = parseSigCheck st.erase opcode := by
  rw [trackSigCheck, parseSigCheck]
  by_cases hmulti : opcode = .checkmultisig ∨ opcode = .checkmultisigverify
  · rw [if_pos hmulti, if_pos (show isMultisigOpcode opcode from hmulti)]
    cases hpending : st.pendingMultisigKeys with
    | none =>
        have : st.erase.pendingMultisigKeys = none := hpending
        rw [this]
        rfl
    | some keyCount =>
        have : st.erase.pendingMultisigKeys = some keyCount := hpending
        rw [this]
        change (trackMultisig st keyCount place opcode).map TrackedState.erase =
          pushMultisigSites { st.erase with pendingMultisigKeys := none } keyCount opcode >>=
            fun st => .ok { st with lastPush := none }
        rw [trackMultisig_erase]
        cases pushMultisigSites { st.erase with pendingMultisigKeys := none } keyCount opcode with
        | error e => rfl
        | ok st => rfl
  · rw [if_neg hmulti, if_neg (show ¬ isMultisigOpcode opcode from hmulti)]
    cases hlast : st.lastPush with
    | none =>
        have : st.erase.lastPush = none := by rw [TrackedState.erase, hlast]; rfl
        rw [this]
        rfl
    | some key =>
        have : st.erase.lastPush = some key.data := by rw [TrackedState.erase, hlast]; rfl
        rw [this]
        simp only [validateKeys_cons, pushSingleSigSite]
        cases validatePubkeySize key.data with
        | error e => rfl
        | ok _ => exact congrArg Except.ok erase_addCheck

theorem trackItem_erase : (trackItem st (item, next)).map TrackedState.erase = parseItem st.erase item := by
  cases item with
  | none => rfl
  | some instruction =>
      cases instruction with
      | pushBytes data =>
          simp only [trackItem, parseItem, trackPush, parsePush, Except.map, Except.ok.injEq]
          split <;> simp [TrackedState.erase]
      | op opcode =>
          simp only [trackItem, parseItem]
          split
          · rfl
          · split
            · exact trackSigCheck_erase
            · cases decodePushnum opcode with
              | some keyCount => rfl
              | none =>
                  cases isAllowedBetweenSigSites opcode with
                  | false => rfl
                  | true => rfl

theorem foldlM_trackItem_erase {items : List Item} :
    ((items.zipIdx next).foldlM trackItem st).map TrackedState.erase = items.foldlM parseItem st.erase := by
  induction items generalizing st next with
  | nil => rfl
  | cons item items ih =>
      rw [List.zipIdx_cons, List.foldlM_cons, List.foldlM_cons, ← @trackItem_erase st item next]
      cases trackItem st (item, next) with
      | error e => rfl
      | ok st' => exact ih

/-- What the parser finds is what it takes, without the places. -/
theorem trackLeafScript_of_parse {script : Script} {parsed : ParsedLeafScript}
    (h : parseLeafScript script = .ok parsed) :
    ∃ st, (instructions script).zipIdx.foldlM trackItem .initial = .ok st ∧
      parsed.sigSites = st.checks.flatMap SigCheck.sites := by
  unfold parseLeafScript at h
  obtain ⟨-, h⟩ := ite_error_eq_ok_iff.mp h
  obtain ⟨-, h⟩ := ite_error_eq_ok_iff.mp h
  obtain ⟨st, hst, h⟩ := bind_eq_ok_iff.mp h
  obtain ⟨-, h⟩ := ite_error_eq_ok_iff.mp h
  obtain ⟨-, h⟩ := ite_error_eq_ok_iff.mp h
  obtain rfl := Except.ok.inj h
  have herase := @foldlM_trackItem_erase .initial 0 (instructions script)
  obtain ⟨tracked, htracked, rfl⟩ := map_eq_ok_iff.mp (herase.trans hst)
  exact ⟨tracked, htracked, rfl⟩

/-! ## What the parser holds of a segment -/

/-- The pushes and the count that the parser holds are those of the segment, and of the pushes before it
only some that no check has taken. -/
structure TrackedState.Reads (segment : List Entry) (next : Nat) (st : TrackedState) : Prop where
  lastPush : st.lastPush = segment.head?.bind Entry.push?
  pending : st.pendingMultisigKeys = (lastCount segment).map KeyCount.count
  buffer : ∃ leftover, st.pushBuffer = leftover ++ (pushes segment).reverse
  fresh : ((st.checks.flatMap SigCheck.keys ++ st.pushBuffer).map Push.place).Nodup
  old : ∀ push ∈ st.checks.flatMap SigCheck.keys ++ st.pushBuffer, push.place < next

theorem lastCount_pushes {k : KeyCount} (h : lastCount segment = some k) :
    pushes segment = pushes k.after ++ pushes k.before := by
  induction segment generalizing k with
  | nil => cases h
  | cons entry older ih =>
      rw [lastCount] at h
      split at h
      · rename_i count hcount
        obtain rfl := Option.some.inj h
        have hpush : entry.push? = none := by
          match entry, hcount with
          | (some (.op _), _), _ => rfl
        rw [pushes, List.filterMap_cons, hpush]
        rfl
      · obtain ⟨k', hk', rfl⟩ := Option.map_eq_some_iff.mp h
        have hrest := ih hk'
        simp only [pushes, List.filterMap_cons] at hrest ⊢
        cases entry.push? with
        | none => exact hrest
        | some push => rw [hrest, List.cons_append]

theorem lastCount_pos {k : KeyCount} (h : lastCount segment = some k) : 0 < k.count := by
  induction segment generalizing k with
  | nil => cases h
  | cons entry older ih =>
      rw [lastCount] at h
      split at h
      · rename_i count hcount
        obtain rfl := Option.some.inj h
        match entry, hcount with
        | (some (.op (.pushnum n)), _), hcount =>
            obtain rfl := Option.some.inj hcount
            exact Nat.succ_pos _
      · obtain ⟨k', hk', rfl⟩ := Option.map_eq_some_iff.mp h
        have hpos := ih hk'
        exact hpos

/-- The last pushes of all are the last ones before OP_N just when none follows it and enough precede it. -/
theorem drop_eq_iff {leftover after before : List Push} {n : Nat} (hn : 0 < n)
    (hroom : n ≤ (leftover ++ (after ++ before).reverse).length) (hnodup : (after ++ before).Nodup) :
    (leftover ++ (after ++ before).reverse).drop ((leftover ++ (after ++ before).reverse).length - n) =
      (before.take n).reverse ↔ after = [] ∧ n ≤ before.length := by
  have hlast : (leftover ++ (after ++ before).reverse).drop
      ((leftover ++ (after ++ before).reverse).length - n) =
        (((after ++ before) ++ leftover.reverse).take n).reverse := by
    have hrev : ((after ++ before) ++ leftover.reverse).reverse = leftover ++ (after ++ before).reverse := by
      simp
    rw [List.reverse_take, hrev]
    congr 1
    simp only [List.length_append, List.length_reverse]
    omega
  rw [hlast, List.reverse_inj]
  constructor
  · intro h
    have hlen := congrArg List.length h
    simp only [List.length_take, List.length_append, List.length_reverse] at hlen hroom
    refine ⟨?_, by omega⟩
    cases after with
    | nil => rfl
    | cons push after =>
        cases n with
        | zero => cases hn
        | succ n =>
            have hmem : push ∈ before.take (n + 1) := by
              rw [← h]
              exact List.mem_cons_self
            exact absurd (List.mem_append_right after (List.mem_of_mem_take hmem))
              (List.nodup_cons.mp hnodup).1
  · rintro ⟨rfl, hle⟩
    rw [List.nil_append, List.take_append_of_le_length hle]

/-! ## One instruction -/

/-- An instruction that is no check extends the segment. -/
theorem TrackedState.Reads.extend {entry : Entry} (h : st.Reads segment entry.2)
    (hchecks : st'.checks = st.checks) (hlast : st'.lastPush = entry.push?)
    (hpending : st'.pendingMultisigKeys = (lastCount (entry :: segment)).map KeyCount.count)
    (hbuffer : st'.pushBuffer = st.pushBuffer ++ entry.push?.toList) :
    st'.Reads (entry :: segment) (entry.2 + 1) := by
  have hplace : ∀ push ∈ entry.push?, push.place = entry.2 := by
    intro push hpush
    match entry, hpush with
    | (some (.pushBytes data), place), hpush =>
        rw [Entry.push?] at hpush
        split at hpush
        · cases hpush
        · obtain rfl := Option.some.inj hpush
          rfl
  constructor
  · exact hlast
  · exact hpending
  · obtain ⟨leftover, hleft⟩ := h.buffer
    refine ⟨leftover, ?_⟩
    rw [hbuffer, hleft, pushes, pushes, List.filterMap_cons]
    cases entry.push? <;> simp
  · rw [hchecks, hbuffer, ← List.append_assoc, List.map_append]
    refine List.nodup_append.mpr ⟨h.fresh, ?_, ?_⟩
    · cases entry.push? <;> simp
    · intro place hplaceOld other hother heq
      obtain ⟨push, hpush, rfl⟩ := List.mem_map.mp hplaceOld
      obtain ⟨new, hnew, rfl⟩ := List.mem_map.mp hother
      have hlt := h.old push hpush
      rw [heq, hplace new (Option.mem_toList.mp hnew)] at hlt
      exact lt_irrefl _ hlt
  · intro push hpush
    rw [hchecks, hbuffer, ← List.append_assoc] at hpush
    rcases List.mem_append.mp hpush with hpush | hpush
    · exact Nat.lt_succ_of_lt (h.old push hpush)
    · rw [hplace push (Option.mem_toList.mp hpush)]
      exact Nat.lt_succ_self _

/-- A check takes its keys from the pushes and starts a new segment. -/
theorem TrackedState.Reads.check {place : Nat} {keys kept : List Push} (h : st.Reads segment next)
    (hsub : (keys ++ kept).Subperm st.pushBuffer) :
    (st.addCheck ⟨place, opcode, keys⟩ kept).Reads [] (next + 1) := by
  obtain ⟨taken, hperm, htaken⟩ := hsub
  have hflat : (st.addCheck ⟨place, opcode, keys⟩ kept).checks.flatMap SigCheck.keys ++ kept =
      st.checks.flatMap SigCheck.keys ++ (keys ++ kept) := by
    simp [TrackedState.addCheck]
  constructor
  · rfl
  · rfl
  · exact ⟨kept, by simp [TrackedState.addCheck, pushes]⟩
  · change (((st.addCheck ⟨place, opcode, keys⟩ kept).checks.flatMap SigCheck.keys ++ kept).map _).Nodup
    rw [hflat]
    have hfresh := h.fresh.sublist (((List.Sublist.refl _).append htaken).map Push.place)
    exact ((List.Perm.append_left _ hperm).map Push.place).nodup_iff.mp hfresh
  · intro push hpush
    change push ∈ (st.addCheck ⟨place, opcode, keys⟩ kept).checks.flatMap SigCheck.keys ++ kept at hpush
    rw [hflat] at hpush
    refine Nat.lt_succ_of_lt (h.old push ?_)
    rcases List.mem_append.mp hpush with hpush | hpush
    · exact List.mem_append_left _ hpush
    · exact List.mem_append_right _ (htaken.subset (hperm.symm.subset hpush))

theorem trackPush_reads {data : Bytes} {place : Nat}
    (h : st.Reads segment (some (Instruction.pushBytes data), place).2) :
    (trackPush st ⟨place, data⟩).checks = st.checks ∧
      (trackPush st ⟨place, data⟩).Reads ((some (.pushBytes data), place) :: segment) (place + 1) := by
  have hcount : (lastCount ((some (.pushBytes data), place) :: segment)).map KeyCount.count =
      (lastCount segment).map KeyCount.count := by
    rw [lastCount]
    simp only [Entry.count?, Option.map_map]
    rfl
  rw [trackPush]
  split
  · rename_i hempty
    refine ⟨rfl, h.extend rfl ?_ (h.pending.trans hcount.symm) ?_⟩
    · simp [Entry.push?, hempty]
    · simp [Entry.push?, hempty]
  · rename_i hempty
    refine ⟨rfl, h.extend rfl ?_ (h.pending.trans hcount.symm) ?_⟩
    · simp [Entry.push?, hempty]
    · simp [Entry.push?, hempty]

theorem trackItem_plain {entry : Entry} (h : st.Reads segment entry.2) (hplain : entry.check? = none)
    (hstep : trackItem st entry = .ok st') :
    st'.checks = st.checks ∧ st'.Reads (entry :: segment) (entry.2 + 1) := by
  obtain ⟨item, place⟩ := entry
  cases item with
  | none => cases hstep
  | some instruction =>
      cases instruction with
      | pushBytes data =>
          obtain rfl := Except.ok.inj hstep
          exact trackPush_reads h
      | op opcode =>
          have hcheck : isSigCheckOpcode opcode = false := by
            simpa [Entry.check?] using hplain
          simp only [trackItem, hcheck] at hstep
          obtain ⟨-, hstep⟩ := ite_error_eq_ok_iff.mp hstep
          rw [if_neg Bool.false_ne_true] at hstep
          cases hcount : decodePushnum opcode with
          | some keyCount =>
              rw [hcount] at hstep
              obtain rfl := Except.ok.inj hstep
              refine ⟨rfl, h.extend rfl rfl ?_ (List.append_nil _).symm⟩
              rw [lastCount]
              simp [Entry.count?, hcount]
          | none =>
              simp only [hcount] at hstep
              split at hstep
              · obtain rfl := Except.ok.inj hstep
                refine ⟨rfl, h.extend rfl rfl ?_ (List.append_nil _).symm⟩
                rw [lastCount]
                simp only [Entry.count?, hcount, Option.map_map]
                exact h.pending
              · cases hstep

/-- The keys that a check takes are the ones that it names just when its construct is clean. -/
theorem trackSigCheck_reads {place : Nat} (h : st.Reads segment next)
    (hstep : trackSigCheck st opcode place = .ok st') :
    ∃ keys kept, st' = st.addCheck ⟨place, opcode, keys⟩ kept ∧ (keys ++ kept).Subperm st.pushBuffer ∧
      (keys = (Construct.mk segment place opcode).keys ↔ (Construct.mk segment place opcode).Clean) := by
  rw [trackSigCheck] at hstep
  by_cases hmulti : isMultisigOpcode opcode
  · rw [if_pos hmulti, h.pending] at hstep
    cases hlast : lastCount segment with
    | none =>
        rw [hlast] at hstep
        cases hstep
    | some k =>
        simp only [hlast, Option.map_some, trackMultisig] at hstep
        obtain ⟨hroom, hstep⟩ := ite_error_eq_ok_iff.mp hstep
        obtain ⟨-, -, hstep⟩ := bind_eq_ok_iff.mp hstep
        obtain rfl := Except.ok.inj hstep
        refine ⟨_, _, rfl, ?_, ?_⟩
        · exact (List.perm_append_comm.trans (.of_eq (List.take_append_drop _ _))).subperm
        · obtain ⟨leftover, hbuffer⟩ := h.buffer
          rw [lastCount_pushes hlast] at hbuffer
          have hnodup : (pushes k.after ++ pushes k.before).Nodup := by
            have hfresh := List.Nodup.of_map _ h.fresh
            rw [hbuffer] at hfresh
            have hright := (List.nodup_append.mp (List.nodup_append.mp hfresh).2.1).2.1
            exact List.nodup_reverse.mp hright
          rw [hbuffer] at hroom ⊢
          simp only [Construct.keys, Construct.Clean, hmulti, if_true, hlast, Option.mem_def,
            Option.some.injEq, forall_eq', true_implies]
          exact drop_eq_iff (lastCount_pos hlast) (Nat.not_lt.mp hroom) hnodup
  · rw [if_neg hmulti, h.lastPush] at hstep
    cases hpush : segment.head?.bind Entry.push? with
    | none =>
        rw [hpush] at hstep
        cases hstep
    | some key =>
        rw [hpush] at hstep
        obtain ⟨-, -, hstep⟩ := bind_eq_ok_iff.mp hstep
        obtain rfl := Except.ok.inj hstep
        refine ⟨[key], [], rfl, ?_, ?_⟩
        · obtain ⟨leftover, hbuffer⟩ := h.buffer
          rw [hbuffer]
          refine (List.singleton_subperm_iff.mpr (List.mem_append_right _ (List.mem_reverse.mpr ?_)))
          obtain ⟨entry, hentry, hkey⟩ := Option.bind_eq_some_iff.mp hpush
          exact List.mem_filterMap.mpr ⟨entry, List.mem_of_mem_head? hentry, hkey⟩
        · refine iff_of_true ?_ (fun hop => absurd hop hmulti)
          simp only [Construct.keys, hmulti, if_false, hpush, Option.toList_some]

theorem trackItem_check {entry : Entry} (hcheck : entry.check? = some opcode) :
    trackItem st entry = trackSigCheck st opcode entry.2 := by
  obtain ⟨item, place⟩ := entry
  match item, hcheck with
  | some (.op op), hcheck =>
      rw [Entry.check?] at hcheck
      obtain ⟨hop, heq⟩ := Option.ite_none_right_eq_some.mp hcheck
      obtain rfl := Option.some.inj heq
      have hsubstr : op ≠ .substr := by
        rintro rfl
        cases hop
      simp only [trackItem, hsubstr, hop, if_false, if_true]

/-! ## Whole scripts -/

/-- What the parser adds for the entries after a segment. -/
theorem foldlM_trackItem_reads {items : List Item} (h : st.Reads segment next)
    (hrun : (items.zipIdx next).foldlM trackItem st = .ok st') :
    ∃ checks, st'.checks = st.checks ++ checks ∧
      (checks = (constructs segment (items.zipIdx next)).map Construct.named ↔
        ∀ c ∈ constructs segment (items.zipIdx next), c.Clean) ∧
      checks.map SigCheck.place = (constructs segment (items.zipIdx next)).map Construct.place ∧
      ∃ segment' next', st'.Reads segment' next' := by
  induction items generalizing st segment next with
  | nil =>
      obtain rfl := Except.ok.inj hrun
      exact ⟨[], (List.append_nil _).symm, by simp [constructs], rfl, segment, next, h⟩
  | cons item items ih =>
      rw [List.zipIdx_cons] at hrun ⊢
      obtain ⟨mid, hstep, hrun⟩ := foldlM_cons_ok_iff.mp hrun
      cases hcheck : Entry.check? (item, next) with
      | none =>
          obtain ⟨hchecks, hmid⟩ := trackItem_plain h hcheck hstep
          obtain ⟨checks, hst', hiff, hplaces, hend⟩ := ih hmid hrun
          simp only [constructs, hcheck]
          exact ⟨checks, by rw [hst', hchecks], hiff, hplaces, hend⟩
      | some opcode =>
          rw [trackItem_check hcheck] at hstep
          obtain ⟨keys, kept, rfl, hsub, hkeys⟩ := trackSigCheck_reads h hstep
          obtain ⟨checks, hst', hiff, hplaces, hend⟩ := ih (h.check hsub) hrun
          simp only [constructs, hcheck]
          refine ⟨⟨next, opcode, keys⟩ :: checks, ?_, ?_, ?_, hend⟩
          · rw [hst', TrackedState.addCheck, List.append_assoc, List.singleton_append]
          · rw [List.map_cons, List.cons.injEq, hiff, List.forall_mem_cons, ← hkeys]
            simp [Construct.named]
          · rw [List.map_cons, List.map_cons, hplaces]

/-- The places of the checks are those of the script, in its order. -/
theorem constructs_places {items : List Item} {segment : List Entry} {next : Nat} :
    ((constructs segment (items.zipIdx next)).map Construct.place).Pairwise (· < ·) ∧
      ∀ c ∈ constructs segment (items.zipIdx next), next ≤ c.place := by
  induction items generalizing segment next with
  | nil => exact ⟨.nil, fun c hc => by cases hc⟩
  | cons item items ih =>
      rw [List.zipIdx_cons]
      cases hcheck : Entry.check? (item, next) with
      | none =>
          simp only [constructs, hcheck]
          obtain ⟨hpair, hle⟩ := @ih ((item, next) :: segment) (next + 1)
          exact ⟨hpair, fun c hc => Nat.le_of_succ_le (hle c hc)⟩
      | some opcode =>
          simp only [constructs, hcheck]
          obtain ⟨hpair, hle⟩ := @ih [] (next + 1)
          constructor
          · rw [List.map_cons]
            refine .cons ?_ hpair
            intro place hplace
            obtain ⟨c, hc, rfl⟩ := List.mem_map.mp hplace
            exact hle c hc
          · intro c hc
            rcases List.mem_cons.mp hc with rfl | hc
            · exact le_refl _
            · exact Nat.le_of_succ_le (hle c hc)

/-- Every check has the keys that the script names for it, no push is the key of two checks, and the
checks stand in script order. -/
structure BindsAsRead (script : Script) (checks : List SigCheck) : Prop where
  keys : checks = (scriptConstructs script).map Construct.named
  once : ((checks.flatMap SigCheck.keys).map Push.place).Nodup
  inOrder : (checks.map SigCheck.place).Pairwise (· < ·)

/-- The sites of an accepted script bind the keys as the script reads, unless a multisig has a push after
its OP_N or too few before it. -/
theorem parseLeafScript_bindsAsRead_iff {script : Script} {parsed : ParsedLeafScript}
    (h : parseLeafScript script = .ok parsed) :
    ∃ checks, trackLeafScript script = .ok checks ∧
      parsed.sigSites = checks.flatMap SigCheck.sites ∧
      (BindsAsRead script checks ↔ ∀ c ∈ scriptConstructs script, c.Clean) := by
  obtain ⟨st, hrun, hsites⟩ := trackLeafScript_of_parse h
  have hinit : TrackedState.initial.Reads [] 0 := by
    constructor
    · rfl
    · rfl
    · exact ⟨[], rfl⟩
    · exact List.nodup_nil
    · intro push hpush
      cases hpush
  obtain ⟨checks, hchecks, hiff, hplaces, segment, next, hend⟩ := foldlM_trackItem_reads hinit hrun
  obtain rfl : st.checks = checks := hchecks
  refine ⟨st.checks, by rw [trackLeafScript, hrun]; rfl, hsites, fun hbinds => hiff.mp hbinds.keys, ?_⟩
  intro hclean
  constructor
  · exact hiff.mpr hclean
  · exact hend.fresh.sublist ((List.sublist_append_left _ _).map _)
  · rw [hplaces]
    exact constructs_places.1

/-! A multisig of two keys; in the second leaf a push stands after its OP_N. -/

def push32 (byte : UInt8) : Script := 0x20 :: List.replicate 32 byte

def twoKeys (opcode : Opcode) (a b : UInt8) : List SigCheckSite :=
  [⟨List.replicate 32 a, opcode⟩, ⟨List.replicate 32 b, opcode⟩]

def pairLeaf : Script := 0x00 :: push32 1 ++ push32 2 ++ [0x52, 0xae]

def strayLeaf : Script := 0x00 :: push32 1 ++ push32 2 ++ 0x52 :: push32 3 ++ [0xae]

theorem pairLeaf_bindsAsRead : parseLeafScript pairLeaf = .ok ⟨twoKeys .checkmultisig 1 2⟩ ∧
    ∃ checks, trackLeafScript pairLeaf = .ok checks ∧ BindsAsRead pairLeaf checks := by
  have hparse : parseLeafScript pairLeaf = .ok ⟨twoKeys .checkmultisig 1 2⟩ := by decide
  obtain ⟨checks, htrack, -, hiff⟩ := parseLeafScript_bindsAsRead_iff hparse
  exact ⟨hparse, checks, htrack, hiff.mpr (by decide)⟩

/-- The leaf names the first two keys, and the parser takes the last two. -/
theorem strayLeaf_misread :
    parseLeafScript strayLeaf = .ok ⟨twoKeys .checkmultisig 2 3⟩ ∧
    (scriptConstructs strayLeaf).flatMap (SigCheck.sites ∘ Construct.named) =
      twoKeys .checkmultisig 1 2 := by
  constructor
  · decide
  · decide

end Bip360Enforcer.Pqc
