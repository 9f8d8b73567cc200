import Bip360Enforcer.Tapscript.Lemmas.Stack

/-!
# Running the pushes that OP_VAULT writes
-/

namespace Bip360Enforcer.Tapscript

open LittleEndian (encode decode_encode)

variable {C : Crypto} {ctx : LeafContext} {stack : Stack} {data rest : Bytes} {items : List Bytes}

/-! ## Reading a push -/

theorem instructions_of_next {script : Script} {item : Item}
    (h : nextInstruction script = some (item, rest)) : instructions script = item :: instructions rest := by
  rw [instructions_eq, h]

theorem takeSliceOrKill_append : takeSliceOrKill data.length (data ++ rest) =
    (some (.pushBytes data), rest) := by
  simp [takeSliceOrKill]

theorem nextPushDataLen_append {size : Nat} (h : data.length < 256 ^ size) :
    nextPushDataLen size (encode size data.length ++ (data ++ rest)) = (some (.pushBytes data), rest) := by
  have hlen := LittleEndian.length_encode size data.length
  rw [nextPushDataLen, if_pos (by rw [List.length_append, hlen]; omega), List.take_left' hlen,
    List.drop_left' hlen, decode_encode h, takeSliceOrKill_append]

/-- The instruction that `pushMinimal` writes for `data`. -/
def pushInstruction (data : Bytes) : Instruction :=
  match data with
  | [b] =>
      if 1 ≤ b ∧ b ≤ 16 then .op (.fromU8 (0x50 + b))
      else if b = 0x81 then .op (.fromU8 0x4f)
      else .pushBytes [b]
  | data => .pushBytes data

theorem nextInstruction_opcode {byte : UInt8} (h : 0x4e < byte.toNat) :
    nextInstruction (byte :: rest) = some (some (.op (.fromU8 byte)), rest) := by
  rw [nextInstruction, if_neg (by omega), if_neg (by omega), if_neg (by omega), if_neg (by omega)]

theorem nextInstruction_direct (h : data.length ≤ 0x4b) :
    nextInstruction (UInt8.ofNat data.length :: (data ++ rest)) = some (some (.pushBytes data), rest) := by
  have hbyte : (UInt8.ofNat data.length).toNat = data.length := by
    rw [UInt8.toNat_ofNat']
    exact Nat.mod_eq_of_lt (by omega)
  rw [nextInstruction, hbyte, if_pos h, takeSliceOrKill_append]

theorem nextInstruction_write {form : PushForm} (h : data.length ≤ form.maxLength) :
    nextInstruction (form.write data ++ rest) = some (some (.pushBytes data), rest) := by
  have hread : ∀ size, data.length < 256 ^ size →
      some (nextPushDataLen size (encode size data.length ++ data ++ rest)) =
        some (some (.pushBytes data), rest) := by
    intro size hlen
    rw [List.append_assoc, nextPushDataLen_append hlen]
  cases form with
  | direct => exact nextInstruction_direct h
  | pushdata1 => exact hread 1 (Nat.lt_of_le_pred (by decide) h)
  | pushdata2 => exact hread 2 (Nat.lt_of_le_pred (by decide) h)
  | pushdata4 => exact hread 4 (Nat.lt_of_le_pred (by decide) h)

theorem nextInstruction_pushMinimal (h : data.length ≤ maxScriptElementSize) :
    nextInstruction (pushMinimal data ++ rest) = some (some (pushInstruction data), rest) := by
  rw [maxScriptElementSize] at h
  match data with
  | [] => rfl
  | [b] =>
      simp only [pushMinimal, pushInstruction]
      split_ifs with hnum hneg
      · have hbyte : (0x50 + b).toNat = 0x50 + b.toNat := by
          have h16 : b.toNat ≤ 16 := hnum.2
          rw [UInt8.toNat_add]
          exact Nat.mod_eq_of_lt (by simp only [UInt8.reduceToNat]; omega)
        have h1 : 1 ≤ b.toNat := hnum.1
        exact nextInstruction_opcode (by rw [hbyte]; omega)
      · exact nextInstruction_opcode (by decide)
      · have hlen : [b].length ≤ 0x4b := by simp
        exact nextInstruction_direct hlen
  | b :: c :: tail =>
      simp only [pushMinimal, pushInstruction]
      generalize hdata : b :: c :: tail = data at h ⊢
      split_ifs with hdirect hone
      · exact nextInstruction_direct (by omega)
      · have henc : encode 1 data.length = [UInt8.ofNat data.length] := rfl
        have hlen : data.length < 256 ^ 1 := by omega
        have hnext := @nextPushDataLen_append data rest 1 hlen
        rw [henc] at hnext
        exact congrArg some hnext
      · have hlen : data.length < 256 ^ 2 := by omega
        rw [List.append_assoc]
        exact congrArg some (nextPushDataLen_append hlen)

theorem takeSliceOrKill_push {n : Nat} {script : Bytes}
    (h : takeSliceOrKill n script = (some (.pushBytes data), rest)) :
    script = data ++ rest ∧ data.length = n := by
  rw [takeSliceOrKill] at h
  split at h
  · rename_i hle
    obtain ⟨hdata, rfl⟩ := Prod.mk.inj h
    obtain rfl : script.take n = data := by simpa using hdata
    exact ⟨(List.take_append_drop n script).symm, List.length_take_of_le hle⟩
  · cases (Prod.mk.inj h).1

theorem nextPushDataLen_push {size : Nat} {script : Bytes}
    (h : nextPushDataLen size script = (some (.pushBytes data), rest)) :
    script = LittleEndian.encode size data.length ++ data ++ rest ∧ data.length < 256 ^ size := by
  rw [nextPushDataLen] at h
  split at h
  · rename_i hle
    obtain ⟨hscript, hlen⟩ := takeSliceOrKill_push h
    have hsize : (script.take size).length = size := List.length_take_of_le hle
    have hencode := LittleEndian.encode_decode (script.take size)
    have hlt := LittleEndian.decode_lt (script.take size)
    rw [hsize] at hencode hlt
    rw [hlen]
    refine ⟨?_, hlt⟩
    rw [hencode, List.append_assoc, ← hscript, List.take_append_drop]
  · cases (Prod.mk.inj h).1

/-- A push that is read is written in one of the forms. -/
theorem nextInstruction_push {script : Script}
    (h : nextInstruction script = some (some (.pushBytes data), rest)) :
    ∃ form : PushForm, data.length ≤ form.maxLength ∧ script = form.write data ++ rest := by
  cases script with
  | nil => cases h
  | cons byte script =>
      rw [nextInstruction] at h
      split_ifs at h with h0 h1 h2 h4
      · obtain ⟨rfl, hlen⟩ := takeSliceOrKill_push (Option.some.inj h)
        refine ⟨.direct, hlen.trans_le h0, ?_⟩
        rw [PushForm.write, hlen, UInt8.ofNat_toNat]
        rfl
      · obtain ⟨rfl, hlen⟩ := nextPushDataLen_push (Option.some.inj h)
        refine ⟨.pushdata1, Nat.le_pred_of_lt hlen, ?_⟩
        rw [PushForm.write, ← UInt8.ofNat_toNat (x := byte), h1]
        rfl
      · obtain ⟨rfl, hlen⟩ := nextPushDataLen_push (Option.some.inj h)
        refine ⟨.pushdata2, Nat.le_pred_of_lt hlen, ?_⟩
        rw [PushForm.write, ← UInt8.ofNat_toNat (x := byte), h2]
        rfl
      · obtain ⟨rfl, hlen⟩ := nextPushDataLen_push (Option.some.inj h)
        refine ⟨.pushdata4, Nat.le_pred_of_lt hlen, ?_⟩
        rw [PushForm.write, ← UInt8.ofNat_toNat (x := byte), h4]
        rfl
      · cases h

theorem takeSliceOrKill_not_op {n : Nat} {script : Bytes} {op : Opcode} :
    takeSliceOrKill n script ≠ (some (.op op), rest) := by
  rw [takeSliceOrKill]
  intro h
  split at h
  · cases (Prod.mk.inj h).1
  · cases (Prod.mk.inj h).1

theorem nextPushDataLen_not_op {size : Nat} {script : Bytes} {op : Opcode} :
    nextPushDataLen size script ≠ (some (.op op), rest) := by
  rw [nextPushDataLen]
  intro h
  split at h
  · exact takeSliceOrKill_not_op h
  · cases (Prod.mk.inj h).1

theorem nextInstruction_op {script : Script} {op : Opcode}
    (h : nextInstruction script = some (some (.op op), rest)) :
    ∃ byte, 0x4e < byte.toNat ∧ op = .fromU8 byte ∧ script = byte :: rest := by
  cases script with
  | nil => cases h
  | cons byte script =>
      rw [nextInstruction] at h
      split_ifs at h with h0 h1 h2 h4
      · exact absurd (Option.some.inj h) takeSliceOrKill_not_op
      · exact absurd (Option.some.inj h) nextPushDataLen_not_op
      · exact absurd (Option.some.inj h) nextPushDataLen_not_op
      · exact absurd (Option.some.inj h) nextPushDataLen_not_op
      · obtain ⟨hop, rfl⟩ := Prod.mk.inj (Option.some.inj h)
        obtain rfl : Opcode.fromU8 byte = op := by simpa using hop
        exact ⟨byte, by omega, rfl, rfl⟩

/-! ## Minimal pushes -/

theorem pushed_pushInstruction : (pushInstruction data).pushed = some data := by
  match data with
  | [] => rfl
  | [b] =>
      have hall : ∀ n : Fin 256, (pushInstruction [UInt8.ofNat n]).pushed = some [UInt8.ofNat n] := by
        decide +kernel
      simpa using hall ⟨b.toNat, b.toNat_lt⟩
  | b :: c :: tail => rfl

/-- A single push is written in one of the forms, or is an opcode that stands for a number. -/
theorem pushes_cases {script : Script} (h : Pushes script data) :
    (∃ form : PushForm, data.length ≤ form.maxLength ∧ script = form.write data) ∨
      ∃ byte, script = [byte] ∧ (Instruction.op (.fromU8 byte)).pushed = some data := by
  obtain ⟨instruction, hsingle, hpushed⟩ := h
  rw [instructions_eq] at hsingle
  cases hnext : nextInstruction script with
  | none =>
      rw [hnext] at hsingle
      cases hsingle
  | some next =>
      obtain ⟨item, rest⟩ := next
      rw [hnext] at hsingle
      obtain ⟨rfl, hrest⟩ := List.cons.inj hsingle
      have hend : rest = [] := by
        rw [instructions_eq] at hrest
        cases rest with
        | nil => rfl
        | cons byte rest =>
            have hsome : (nextInstruction (byte :: rest)).isSome = true := by
              rw [nextInstruction]
              split_ifs <;> rfl
            obtain ⟨_, hread⟩ := Option.isSome_iff_exists.mp hsome
            rw [hread] at hrest
            cases hrest
      subst hend
      cases instruction with
      | pushBytes bytes =>
          obtain rfl : bytes = data := Option.some.inj hpushed
          obtain ⟨form, hlen, hscript⟩ := nextInstruction_push hnext
          exact .inl ⟨form, hlen, by rw [hscript, List.append_nil]⟩
      | op op =>
          obtain ⟨byte, -, rfl, hscript⟩ := nextInstruction_op hnext
          exact .inr ⟨byte, hscript, hpushed⟩

theorem pushMinimal_number {byte : UInt8} (h : (Instruction.op (.fromU8 byte)).pushed = some data) :
    pushMinimal data = [byte] := by
  have hall : ∀ n : Fin 256, (Instruction.op (.fromU8 (UInt8.ofNat n))).pushed.all
      fun data => pushMinimal data = [UInt8.ofNat n] := by decide +kernel
  have hbyte := hall ⟨byte.toNat, byte.toNat_lt⟩
  simp only [UInt8.ofNat_toNat, h, Option.all_some, decide_eq_true_eq] at hbyte
  exact hbyte

/-- Written in another form, a push is longer. -/
theorem write_longer {form : PushForm} (h : data.length ≤ form.maxLength)
    (hne : form.write data ≠ pushMinimal data) : (pushMinimal data).length < (form.write data).length := by
  have hsize : ∀ size, (encode size data.length).length = size := fun size =>
    LittleEndian.length_encode size data.length
  match data with
  | [] =>
      cases form with
      | direct => exact absurd rfl hne
      | _ => simp [pushMinimal, PushForm.write, LittleEndian.length_encode]
  | [b] =>
      have hshort : (pushMinimal [b]).length ≤ 2 := by
        simp only [pushMinimal]
        split_ifs <;> simp
      cases form with
      | direct =>
          simp only [pushMinimal] at hne ⊢
          split_ifs at hne ⊢ with hnum hneg
          · simp [PushForm.write]
          · simp [PushForm.write]
          · exact absurd rfl hne
      | _ =>
          simp only [PushForm.write, List.length_cons, List.length_append, LittleEndian.length_encode,
            List.length_nil]
          omega
  | b :: c :: tail =>
      simp only [pushMinimal] at hne ⊢
      generalize hdata : b :: c :: tail = data at h hne hsize ⊢
      cases form with
      | direct =>
          have hlt : data.length < 0x4c := Nat.lt_succ_of_le h
          rw [if_pos hlt] at hne
          exact absurd rfl hne
      | pushdata1 =>
          have hle : data.length ≤ 0xff := h
          simp only [PushForm.write, List.length_cons, List.length_append, hsize]
          split_ifs at hne ⊢ with hdirect
          · simp only [List.length_cons, List.length_nil]
            omega
          · exact absurd rfl hne
      | pushdata2 =>
          simp only [PushForm.write, List.length_cons, List.length_append, hsize]
          split_ifs at hne ⊢ with hdirect hone
          · simp only [List.length_cons, List.length_nil]
            omega
          · simp only [List.length_cons, List.length_nil]
            omega
          · exact absurd rfl hne
      | pushdata4 =>
          simp only [PushForm.write, List.length_cons, List.length_append, hsize]
          split_ifs with hdirect hone
          · simp only [List.length_cons, List.length_nil]
            omega
          · simp only [List.length_cons, List.length_nil]
            omega
          · simp only [List.length_cons, hsize]
            omega

/-- What OP_VAULT writes is the minimal push of the element. -/
theorem pushMinimal_minimal (h : data.length ≤ maxScriptElementSize) :
    MinimalPush data (pushMinimal data) where
  pushes := by
    have hnext : nextInstruction (pushMinimal data ++ []) = some (some (pushInstruction data), []) :=
      nextInstruction_pushMinimal h
    rw [List.append_nil] at hnext
    exact ⟨_, instructions_of_next hnext, pushed_pushInstruction⟩
  shortest other hother hne := by
    rcases pushes_cases hother with ⟨form, hlen, rfl⟩ | ⟨byte, rfl, hpushed⟩
    · exact write_longer hlen hne
    · exact absurd (pushMinimal_number hpushed).symm hne

/-! ## Running pushes -/

theorem execItem_pushInstruction (hneg : data ≠ [0x81]) :
    execItem C ctx stack (some (pushInstruction data)) = (stack.push data).map fun s => (s, []) := by
  have hbytes : execItem C ctx stack (some (.pushBytes data)) =
      (stack.push data).map fun s => (s, []) := rfl
  match data with
  | [] => exact hbytes
  | [b] =>
      simp only [pushInstruction]
      split_ifs with hnum hb
      · -- the sixteen number opcodes
        have hall : ∀ n : Fin 16,
            Opcode.fromU8 (0x50 + UInt8.ofNat (n + 1)) = .pushnum n := by decide
        have hlt : b.toNat - 1 < 16 := by
          have : b.toNat ≤ 16 := hnum.2
          omega
        have hb : UInt8.ofNat (b.toNat - 1 + 1) = b := by
          have h1 : 1 ≤ b.toNat := hnum.1
          rw [Nat.sub_add_cancel h1, UInt8.ofNat_toNat]
        have hop := hall ⟨b.toNat - 1, hlt⟩
        simp only [hb] at hop
        rw [hop]
        show (do let s ← stack.push [UInt8.ofNat (b.toNat - 1 + 1)]; .ok (s, [])) = _
        rw [hb]
        rfl
      · exact absurd (by rw [hb]) hneg
      · exact hbytes
  | b :: c :: tail => exact hbytes

/-- The stack with the elements `items` on top of `stack`, the last of them topmost. -/
def Stack.pushed (stack : Stack) (items : List Bytes)
    (hsize : ∀ item ∈ items, item.length ≤ maxScriptElementSize)
    (hroom : stack.items.length + items.length ≤ maxStackSize) : Stack where
  items := items.reverse ++ stack.items
  element_le item hitem := by
    rcases List.mem_append.mp hitem with h | h
    · exact hsize item (List.mem_reverse.mp h)
    · exact stack.element_le item h
  length_le := by
    rw [List.length_append, List.length_reverse]
    omega

/-- The pushes of `items` in front of any script leave exactly `items` for it. -/
theorem run_pushes {after : Stack} (h : after.items = items.reverse ++ stack.items)
    (hneg : [0x81] ∉ items) (body : Script) (deferred : List DeferredCheck) :
    (instructions (items.flatMap pushMinimal ++ body)).foldlM (step C ctx) ⟨stack, deferred⟩ =
      (instructions body).foldlM (step C ctx) ⟨after, deferred⟩ := by
  induction items generalizing stack with
  | nil =>
      obtain rfl : after = stack := Stack.ext h
      rfl
  | cons data items ih =>
      rw [List.reverse_cons, List.append_assoc, List.singleton_append] at h
      have hmem : data :: stack.items ⊆ after.items := by
        rw [h]; exact List.subset_append_right _ _
      let mid : Stack := {
        items := data :: stack.items
        element_le := fun item hitem => after.element_le item (hmem hitem)
        length_le := by
          have := after.length_le
          rw [h, List.length_append] at this
          exact (Nat.le_add_left _ _).trans this }
      have hsize := after.element_le data (hmem List.mem_cons_self)
      have hstep : step C ctx ⟨stack, deferred⟩ (some (pushInstruction data)) = .ok ⟨mid, deferred⟩ := by
        have hpush : stack.push data = .ok mid := Stack.push_eq_ok.mpr rfl
        rw [step, execItem_pushInstruction (fun hd => hneg (by rw [hd]; exact List.mem_cons_self)), hpush]
        simp [Except.map, bind, Except.bind]
      have hrest : after.items = items.reverse ++ mid.items := h
      rw [List.flatMap_cons, List.append_assoc,
        instructions_of_next (nextInstruction_pushMinimal hsize), List.foldlM_cons, hstep]
      exact ih hrest (fun hm => hneg (List.mem_cons_of_mem _ hm))

/-- The push of 0x81 stops every script. -/
theorem run_negOne (body : Script) (m : Machine) :
    (instructions (pushMinimal [0x81] ++ body)).foldlM (step C ctx) m =
      .error (.unimplementedOpcode (.other 0x4f)) := by
  rw [instructions_of_next (nextInstruction_pushMinimal (by decide)), List.foldlM_cons]
  rfl

end Bip360Enforcer.Tapscript
