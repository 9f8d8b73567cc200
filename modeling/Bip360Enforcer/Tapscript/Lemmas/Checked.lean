import Bip360Enforcer.Tapscript.Checked
import Bip360Enforcer.Tapscript.Lemmas.Deferred

/-!
# No operation of the interpreter panics
-/

namespace Bip360Enforcer.Tapscript.Checked

open LittleEndian (encode top_eq_zero)
open MayPanic (Refines ensure index unwrap)

variable {stack : Stack} {opcode : String}

/-! ## Stack -/

theorem newStack_refines (initial : List Bytes) :
    Refines Stack.items (newStack initial) (Stack.new initial) := by
  unfold Stack.new
  split
  · rename_i item hfind
    simp only [newStack, hfind]
    exact .fail _
  · rename_i hfind
    simp only [newStack, hfind]
    split
    · rename_i hlen
      rw [dif_neg (by omega)]
      exact .fail _
    · rename_i hlen
      rw [dif_pos (by omega)]
      exact .pure _

theorem push_refines (item : Bytes) : Refines Stack.items (push stack.items item) (stack.push item) := by
  unfold push Stack.push
  split
  · rename_i hitem
    rw [dif_neg (by omega)]
    exact .fail _
  · rename_i hitem
    rw [dif_pos (by omega)]
    simp only [List.length_cons]
    split
    · rename_i hlen
      rw [dif_neg (by omega)]
      exact .fail _
    · rename_i hlen
      rw [dif_pos (by omega)]
      exact .pure _

/-- The items of what is left of the stack. -/
def rest {α : Type} (result : α × Stack) : α × List Bytes := (result.1, result.2.items)

theorem pop_refines : Refines rest (pop stack.items opcode) (stack.pop opcode) := by
  obtain ⟨items, hitems, hlen⟩ := stack
  cases items with
  | nil => exact .fail _
  | cons item items => exact .pure _

theorem top_refines : Refines id (top stack.items opcode) (stack.top opcode) := by
  obtain ⟨items, hitems, hlen⟩ := stack
  cases items with
  | nil => exact .fail _
  | cons item items => exact .pure _

theorem popN_refines (n : Nat) : Refines rest (popN stack.items opcode n) (stack.popN opcode n) := by
  induction n generalizing stack with
  | zero => exact .pure (([], stack) : List Bytes × Stack)
  | succ n ih =>
      refine pop_refines.bind fun popped _ => ?_
      refine ih.bind fun more _ => ?_
      exact .pure ((popped.1 :: more.1, more.2) : List Bytes × Stack)

/-! ## Truth values and numbers -/

theorem isTruthyFrom_eq {v done todo : Bytes} (hv : v = done ++ todo) :
    isTruthyFrom v done.length todo = .ok (Tapscript.isTruthy todo) := by
  induction todo generalizing done with
  | nil => rfl
  | cons b todo ih =>
      have hlen : v.length = done.length + (todo.length + 1) := by rw [hv, List.length_append]; rfl
      rw [isTruthyFrom, Tapscript.isTruthy]
      by_cases hb : b = 0
      · have hnext := @ih (done ++ [b]) (by rw [hv, List.append_assoc]; rfl)
        rw [List.length_append] at hnext
        simpa [hb] using hnext
      · have hlast : (done.length == v.length - 1) = todo.isEmpty := by
          cases todo with
          | nil => simp [hlen]
          | cons c todo => simp [hlen]
        rw [if_pos hb, MayPanic.usizeSub, ensure, if_pos (by omega)]
        simp [hb, bind, Except.bind, hlast]

theorem isTruthy_eq (v : Bytes) : isTruthy v = .ok (Tapscript.isTruthy v) :=
  @isTruthyFrom_eq v [] v rfl

/-- With at most eight bytes, no shift is out of range. -/
theorem orBytes_eq {i : Nat} {result : Int64} {bytes : Bytes} (h : i + bytes.length ≤ 8) :
    orBytes i result bytes = .ok (Tapscript.orBytes (8 * i) result bytes) := by
  induction bytes generalizing i result with
  | nil => rfl
  | cons b bytes ih =>
      rw [List.length_cons] at h
      have hnext := @ih (i + 1) (result ||| byteToI64 b <<< Int64.ofNat (8 * i)) (by omega)
      rw [orBytes, MayPanic.usizeMul, ensure, if_pos (by omega)]
      simp only [bind, Except.bind, i64Shl]
      rw [ensure, if_pos (by omega)]
      exact hnext

theorem nonMinimal_eq (init : Bytes) (last : UInt8) :
    nonMinimal (init ++ [last]) last =
      .ok (decide (last &&& 0x7f = 0 ∧ init.reverse.head?.all fun b => b &&& 0x80 = 0)) := by
  unfold nonMinimal
  by_cases hlow : last &&& 0x7f = 0
  · rcases List.eq_nil_or_concat init with rfl | ⟨init', below, rfl⟩
    · simp [hlow]
    · have hlen : (init' ++ [below] ++ [last]).length = init'.length + 2 := by simp
      have hbelow : (init' ++ [below] ++ [last])[init'.length]? = some below := by simp
      rw [List.concat_eq_append, if_neg (by simpa using hlow), if_neg (by omega), MayPanic.usizeSub, ensure,
        if_pos (by omega), hlen]
      simp only [bind, Except.bind, Nat.add_sub_cancel, index, hbelow]
      simp [hlow]
  · simp [hlow]

/-- The number below the sign bit is too small to be the one that cannot be negated. -/
theorem magnitude_ne_min {init : Bytes} {last : UInt8} (h : init.length < 8) (hlast : last &&& 0x80 ≠ 0) :
    Tapscript.orBytes 0 0 (init ++ [last]) &&& ~~~((0x80 : Int64) <<< Int64.ofNat (8 * init.length)) ≠
      Int64.minValue := by
  intro hmin
  have hge : 128 ≤ last.toNat := by
    have := mt (top_eq_zero last).mpr hlast
    omega
  have hvalue := toInt_negative h hge
  have hneg : (-Int64.minValue).toInt = -2 ^ 63 := by decide
  have hinit := LittleEndian.decode_lt init
  have hlt := last.toNat_lt
  have hmul := Nat.mul_le_mul_left (256 ^ init.length) (show last.toNat - 128 ≤ 127 by omega)
  have hpow := pow_256_le h
  have hcast : ((last.toNat - 128 : Nat) : Int) = (last.toNat : Int) - 128 := by omega
  rw [hmin, hneg, ← hcast] at hvalue
  have hnat : 2 ^ 63 = LittleEndian.decode init + 256 ^ init.length * (last.toNat - 128) := by
    exact_mod_cast neg_injective hvalue
  omega

theorem readScriptnum_refines {bytes : Bytes} {maxLen : Nat} (hm : maxLen ≤ 8) :
    Refines id (readScriptnum bytes maxLen) (Tapscript.readScriptnum bytes maxLen) := by
  unfold readScriptnum Tapscript.readScriptnum
  refine .ite (fun _ => .fail _) fun hlen => ?_
  rcases List.eq_nil_or_concat bytes with rfl | ⟨init, last, rfl⟩
  · exact .pure _
  · rw [List.concat_eq_append] at hlen ⊢
    have hlength : (init ++ [last]).length = init.length + 1 := by simp
    have hinit : init.length < 8 := by omega
    have hlast : (init ++ [last])[init.length]? = some last := by simp
    have hempty : ¬ (init ++ [last]).isEmpty = true := by simp
    have hreverse : (init ++ [last]).reverse = last :: init.reverse := by simp
    rw [if_neg hempty, hreverse, hlength, Nat.add_sub_cancel]
    refine .ensure_bind (by omega) (.index_bind hlast ?_)
    refine .ok_bind (nonMinimal_eq init last) ?_
    simp only [decide_eq_true_eq]
    refine .ite (fun _ => .fail _) fun _ => ?_
    refine .ok_bind (orBytes_eq (by omega)) ?_
    refine .ite (fun hsign => ?_) fun _ => .pure _
    refine .ensure_bind (by omega) (.ensure_bind (by omega) (.ensure_bind (by omega) ?_))
    simp only [Nat.mul_zero, Nat.add_sub_cancel, i64Neg, ensure]
    rw [if_pos (magnitude_ne_min hinit hsign)]
    exact .pure _

theorem absBytes_ne_nil {n : Int64} (h : n ≠ 0) : absBytes 8 n.toInt.natAbs ≠ [] := by
  have hpos : 0 < n.toInt.natAbs := by
    have : n.toInt ≠ 0 := fun hzero => h (Int64.toInt_inj.mp hzero)
    omega
  rw [absBytes, if_pos hpos]
  exact List.cons_ne_nil _ _

theorem encodeScriptnum_eq (n : Int64) : encodeScriptnum n = .ok (Tapscript.encodeScriptnum n) := by
  unfold encodeScriptnum Tapscript.encodeScriptnum
  split
  · rfl
  · rename_i hn
    obtain ⟨init, top, hout⟩ := List.eq_nil_or_concat (absBytes 8 n.toInt.natAbs) |>.resolve_left
      (absBytes_ne_nil hn)
    rw [List.concat_eq_append] at hout
    have hlen : (init ++ [top]).length = init.length + 1 := by simp
    have hset : (init ++ [top]).set init.length (top ||| 0x80) = init ++ [top ||| 0x80] := by simp
    have hreverse : (init ++ [top]).reverse = top :: init.reverse := by simp
    simp only [hout, List.getLast?_concat, unwrap, addSign, hreverse, bind, Except.bind]
    split
    · simp
    · split
      · rename_i hneg
        rw [MayPanic.usizeSub, ensure, if_pos (by omega), hlen]
        simp [index, hset, hneg]
      · rename_i hneg
        simp [hneg]

/-! ## Pushes -/

theorem pushData_eq {data : Bytes} (h : data.length ≤ maxScriptElementSize) :
    pushData data = .ok ((if data.length < 0x4c then [UInt8.ofNat data.length]
      else if data.length ≤ 0xff then [0x4c, UInt8.ofNat data.length]
      else 0x4d :: encode 2 data.length) ++ data) := by
  have hmax : maxScriptElementSize = 520 := rfl
  unfold pushData
  dsimp only
  split
  · rw [usizeToU8, ensure, if_pos (by omega)]
    rfl
  · split
    · rw [usizeToU8, ensure, if_pos (by omega)]
      rfl
    · rw [usizeToU16, ensure, if_pos (by omega)]
      rfl

theorem pushMinimal_eq {data : Bytes} (h : data.length ≤ maxScriptElementSize) :
    pushMinimal data = .ok (Tapscript.pushMinimal data) := by
  cases data with
  | nil => rfl
  | cons b data =>
      cases data with
      | nil =>
          simp only [pushMinimal, Tapscript.pushMinimal]
          split
          · rename_i hb
            have hle : b.toNat ≤ 16 := UInt8.le_iff_toNat_le.mp hb.2
            have hsum : (0x50 : UInt8).toNat + b.toNat < 256 := by
              show 80 + b.toNat < 256
              omega
            rw [u8Add, ensure, if_pos hsum]
            rfl
          · split
            · rfl
            · rfl
      | cons c data => exact pushData_eq h

theorem pushAll_eq {items : List Bytes} (h : ∀ item ∈ items, item.length ≤ maxScriptElementSize) :
    pushAll items = .ok (items.flatMap Tapscript.pushMinimal) := by
  induction items with
  | nil => rfl
  | cons item items ih =>
      rw [pushAll, pushMinimal_eq (h item List.mem_cons_self),
        ih fun item hitem => h item (List.mem_cons_of_mem _ hitem)]
      rfl

theorem popNum_refines {maxLen : Nat} (hm : maxLen ≤ 8) :
    Refines rest (popNum stack.items opcode maxLen) (Tapscript.popNum stack opcode maxLen) := by
  refine pop_refines.bind fun popped _ => ?_
  refine (readScriptnum_refines hm).bind fun n _ => ?_
  exact .pure ((n, popped.2) : Int64 × Stack)

end Bip360Enforcer.Tapscript.Checked
