import Bip360Enforcer.Bitcoin.Types
import Bip360Enforcer.Library.SelfDelimiting

/-!
# What the serialisations determine
-/

namespace Bip360Enforcer

open LittleEndian (encode encode_inj length_encode)

/-! ## Integers -/

theorem encode_selfDelimiting (n : Nat) : SelfDelimiting (· < 256 ^ n) (encode n) :=
  .of_length n (fun v _ => length_encode n v) fun _ _ => encode_inj

/-- The first byte of a `CompactSize` of more than one byte, and the number of bytes that follow it. -/
def compactForms : List (UInt8 × Nat) := [(0xfd, 2), (0xfe, 4), (0xff, 8)]

theorem compactSize_cases {n : Nat} (h : n < 2 ^ 64) :
    (n < 0xfd ∧ compactSize n = [UInt8.ofNat n]) ∨
      ∃ form ∈ compactForms, n < 256 ^ form.2 ∧ compactSize n = form.1 :: encode form.2 n := by
  unfold compactSize
  split
  · rename_i hn
    exact .inl ⟨hn, rfl⟩
  · split
    · rename_i hn
      exact .inr ⟨(0xfd, 2), by decide, Nat.lt_of_le_of_lt hn (by decide), rfl⟩
    · split
      · rename_i hn
        exact .inr ⟨(0xfe, 4), by decide, Nat.lt_of_le_of_lt hn (by decide), rfl⟩
      · exact .inr ⟨(0xff, 8), by decide, h, rfl⟩

theorem compactForms_first_ne {n : Nat} (hn : n < 0xfd) {form : UInt8 × Nat} (hform : form ∈ compactForms) :
    UInt8.ofNat n ≠ form.1 := by
  intro h
  have hbound : ∀ form ∈ compactForms, 0xfd ≤ form.1.toNat := by decide
  have hfirst := congrArg UInt8.toNat h
  rw [UInt8.toNat_ofNat', Nat.mod_eq_of_lt (by omega)] at hfirst
  have := hbound form hform
  omega

theorem compactSize_selfDelimiting : SelfDelimiting (· < 2 ^ 64) compactSize := by
  intro n m r s hn hm h
  have hforms : ∀ form ∈ compactForms, ∀ form' ∈ compactForms, form.1 = form'.1 → form = form' := by decide
  rcases compactSize_cases hn with ⟨hn, hwrite⟩ | ⟨form, hform, hn, hwrite⟩
  · rcases compactSize_cases hm with ⟨hm, hwrite'⟩ | ⟨form', hform', hm, hwrite'⟩
    · rw [hwrite, hwrite'] at h
      obtain ⟨hbyte, hrest⟩ := List.cons.inj h
      have hbyte := congrArg UInt8.toNat hbyte
      rw [UInt8.toNat_ofNat', UInt8.toNat_ofNat', Nat.mod_eq_of_lt (by omega),
        Nat.mod_eq_of_lt (by omega)] at hbyte
      exact ⟨hbyte, hrest⟩
    · rw [hwrite, hwrite'] at h
      exact absurd (List.cons.inj h).1 (compactForms_first_ne hn hform')
  · rcases compactSize_cases hm with ⟨hm, hwrite'⟩ | ⟨form', hform', hm, hwrite'⟩
    · rw [hwrite, hwrite'] at h
      exact absurd (List.cons.inj h).1.symm (compactForms_first_ne hm hform)
    · rw [hwrite, hwrite'] at h
      obtain ⟨hbyte, hrest⟩ := List.cons.inj h
      obtain rfl := hforms form hform form' hform' hbyte
      exact encode_selfDelimiting form.2 n m r s hn hm hrest

/-! ## Scripts and outputs -/

theorem serializeScript_selfDelimiting :
    SelfDelimiting (fun script : Script => script.length < 2 ^ 64) serializeScript :=
  compactSize_selfDelimiting.sized

theorem TxOut.serialize_selfDelimiting :
    SelfDelimiting (fun out : TxOut => out.scriptPubkey.length < 2 ^ 64) TxOut.serialize := by
  have hboth := ((encode_selfDelimiting 8).append serializeScript_selfDelimiting).comap
    (fun out : TxOut => (out.value.toNat, out.scriptPubkey)) fun out out' h => by
      obtain ⟨hvalue, hscript⟩ := Prod.mk.inj h
      cases out
      cases out'
      rw [TxOut.mk.injEq]
      exact ⟨UInt64.toNat.inj hvalue, hscript⟩
  intro out out' r s h h'
  exact hboth out out' r s ⟨out.value.toNat_lt, h⟩ ⟨out'.value.toNat_lt, h'⟩

end Bip360Enforcer
