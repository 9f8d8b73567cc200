import Bip360Enforcer.Library.Except
import Bip360Enforcer.Tapscript.Interp
import Bip360Enforcer.Tapscript.Lemmas.Numbers

/-!
# What the stack operations do to the list of elements
-/

namespace Bip360Enforcer.Tapscript

open Except (bind_eq_ok_iff)
open SignMagnitude (value Minimal)

namespace Stack

variable {stack rest : Stack} {item : Bytes} {opcode : String}

theorem new_eq_ok {initial : List Bytes} (h : Stack.new initial = .ok stack) :
    stack.items = initial.reverse := by
  unfold Stack.new at h
  split at h
  · simp at h
  · split at h
    · simp only [Except.ok.injEq] at h; subst h; rfl
    · simp at h

theorem push_eq_ok : stack.push item = .ok rest ↔ rest.items = item :: stack.items := by
  unfold Stack.push
  constructor
  · intro h
    split_ifs at h
    simp only [Except.ok.injEq] at h
    subst h
    rfl
  · intro h
    have hitem := rest.element_le item (by simp [h])
    have hlen := rest.length_le
    rw [h, List.length_cons] at hlen
    rw [dif_pos hitem, dif_pos (by omega)]
    exact congrArg _ (Stack.ext h.symm)

theorem pop_eq_ok : stack.pop opcode = .ok (item, rest) ↔ stack.items = item :: rest.items := by
  obtain ⟨items, helem, hlen⟩ := stack
  cases items with
  | nil => simp [Stack.pop]
  | cons top items =>
      simp only [Stack.pop, Except.ok.injEq, Prod.mk.injEq, List.cons.injEq, and_congr_right_iff]
      intro _
      exact ⟨fun h => by rw [← h], fun h => Stack.ext h⟩

theorem top_eq_ok : stack.top opcode = .ok item ↔ ∃ below, stack.items = item :: below := by
  unfold Stack.top
  split
  · rename_i h; simp [h]
  · rename_i top below h; simp [h]

theorem popN_eq_ok {n : Nat} {items : List Bytes} :
    stack.popN opcode n = .ok (items, rest) ↔
      items.length = n ∧ stack.items = items ++ rest.items := by
  induction n generalizing stack rest items with
  | zero =>
      simp only [Stack.popN, Except.ok.injEq, Prod.mk.injEq, List.length_eq_zero_iff]
      constructor
      · rintro ⟨rfl, rfl⟩; simp
      · rintro ⟨rfl, h⟩; exact ⟨rfl, Stack.ext h⟩
  | succ n ih =>
      simp only [Stack.popN, bind_eq_ok_iff, Prod.exists, pop_eq_ok, ih, Except.ok.injEq,
        Prod.mk.injEq]
      constructor
      · rintro ⟨top, stack', hpop, below, rest', ⟨hlen, hitems⟩, rfl, rfl⟩
        exact ⟨by simp [hlen], by rw [hpop, hitems]; rfl⟩
      · rintro ⟨hlen, hitems⟩
        obtain ⟨top, below, rfl⟩ := List.exists_cons_of_length_eq_add_one hlen
        refine ⟨top, ⟨below ++ rest.items, ?_, ?_⟩, hitems, below, rest, ⟨by simpa using hlen, rfl⟩,
          rfl, rfl⟩
        · intro i hi; exact stack.element_le i (by rw [hitems]; exact .tail _ hi)
        · have := stack.length_le
          rw [hitems] at this
          simp only [List.cons_append, List.length_cons] at this
          omega

end Stack

theorem popNum_eq_ok {stack rest : Stack} {opcode : String} {maxLen : Nat} {n : Int64}
    (hm : maxLen ≤ 8) :
    popNum stack opcode maxLen = .ok (n, rest) ↔
      ∃ item, stack.items = item :: rest.items ∧ item.length ≤ maxLen ∧ Minimal item
        ∧ n.toInt = value item := by
  simp only [popNum, bind_eq_ok_iff, Prod.exists, Stack.pop_eq_ok, readScriptnum_eq_ok hm,
    Except.ok.injEq, Prod.mk.injEq]
  constructor
  · rintro ⟨item, stack', hpop, m, hm, rfl, rfl⟩
    exact ⟨item, hpop, hm⟩
  · rintro ⟨item, hpop, hm⟩
    exact ⟨item, rest, hpop, n, hm, rfl, rfl⟩

end Bip360Enforcer.Tapscript
