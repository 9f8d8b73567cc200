import Bip360Enforcer.Tapscript.Lemmas.Pushes
import Bip360Enforcer.Tapscript.Revealed

/-!
# Enforced leaves are run
-/

namespace Bip360Enforcer.Tapscript

open Except (bind_eq_ok_iff foldlM_cons_ok_iff mapError_eq_ok_iff)

variable {C : Crypto} {leaf rest : Script} {stack witness : List Bytes} {data : Bytes} {byte : UInt8}
  {tx : Transaction} {prevouts : PrevoutMap} {inputIndex : Nat} {input : TxIn}

/-! ## Opcodes -/

theorem mem_enforcedBytes_iff : byte ∈ enforcedBytes ↔ enforcedOpcodes.contains (.fromU8 byte) = true := by
  have hall : ∀ n : Fin 256, UInt8.ofNat n ∈ enforcedBytes ↔
      enforcedOpcodes.contains (.fromU8 (UInt8.ofNat n)) = true := by decide +kernel
  simpa using hall ⟨byte.toNat, byte.toNat_lt⟩

/-- The detection finds the opcodes of the leaf, and nothing else. -/
theorem leafUsesEnforcedOpcode_iff : leafUsesEnforcedOpcode leaf = true ↔ UsesEnforced leaf := by
  constructor
  · intro h
    induction hlen : leaf.length using Nat.strong_induction_on generalizing leaf with
    | _ n ih =>
        rw [leafUsesEnforcedOpcode, instructions_eq] at h
        split at h
        · cases h
        · rename_i item rest hnext
          have hlt := nextInstruction_length_lt hnext
          cases item with
          | none => cases h
          | some instruction =>
              cases instruction with
              | pushBytes data =>
                  obtain ⟨form, hfits, rfl⟩ := nextInstruction_push hnext
                  obtain ⟨byte, hbyte, hrest⟩ := ih rest.length (hlen ▸ hlt) h rfl
                  exact ⟨byte, hbyte, .push hfits hrest⟩
              | op op =>
                  obtain ⟨byte, hop, rfl, rfl⟩ := nextInstruction_op hnext
                  rw [usesOpcode, Bool.or_eq_true] at h
                  rcases h with h | h
                  · exact ⟨byte, mem_enforcedBytes_iff.mpr h, .here hop⟩
                  · obtain ⟨other, hother, hrest⟩ := ih rest.length (hlen ▸ hlt) h rfl
                    exact ⟨other, hother, .opcode hop hrest⟩
  · rintro ⟨byte, hbyte, hat⟩
    rw [leafUsesEnforcedOpcode]
    induction hat with
    | here h =>
        rw [instructions_of_next (nextInstruction_opcode h), usesOpcode,
          mem_enforcedBytes_iff.mp hbyte, Bool.true_or]
    | opcode h _ ih =>
        rw [instructions_of_next (nextInstruction_opcode h), usesOpcode, ih, Bool.or_true]
    | push h _ ih =>
        rw [instructions_of_next (nextInstruction_write h), usesOpcode, ih]

/-! ## Witnesses -/

theorem leafVersionFromConsensus_tapscript :
    leafVersionFromConsensus tapscriptLeafVersion = some tapscriptLeafVersion := by decide

theorem decode_tapscript_iff {control : Bytes} :
    (∃ block, ControlBlock.decode C control = some block ∧ block.leafVersion = tapscriptLeafVersion) ↔
      TapscriptControl C control := by
  constructor
  · rintro ⟨block, hdecode, hversion⟩
    cases control with
    | nil => cases hdecode
    | cons first rest =>
        simp only [ControlBlock.decode] at hdecode
        split at hdecode
        · cases hdecode
        · rename_i hsize
          simp only [Bool.or_eq_true, decide_eq_true_eq, bne_iff_ne, not_or, not_lt, not_not] at hsize
          obtain ⟨version, hfirst, hdecode⟩ := Option.bind_eq_some_iff.mp hdecode
          split at hdecode
          · cases hdecode
          · rename_i hkey
            split at hdecode
            · cases hdecode
            · rename_i hdepth
              obtain rfl := Option.some.inj hdecode
              obtain rfl : version = tapscriptLeafVersion := hversion
              constructor
              · refine ⟨first, rest, rfl, ?_⟩
                rw [leafVersionFromConsensus] at hfirst
                split at hfirst
                · cases hfirst
                · exact Option.some.inj hfirst
              · simpa using hkey
              · refine ⟨((first :: rest).length - 33) / 32, Nat.le_of_not_lt hdepth, ?_⟩
                omega
  · intro h
    obtain ⟨first, rest, rfl, hversion⟩ := h.version
    obtain ⟨depth, hdepth, hlen⟩ := h.path
    have hkey : C.xonlyFromSlice (rest.take 32) = true := h.key
    have hmod : ((first :: rest).length - 33) % 32 = 0 := by omega
    have hdiv : ((first :: rest).length - 33) / 32 = depth := by omega
    have hlong : ¬ (first :: rest).length < 33 := by omega
    have hshallow : ¬ 128 < depth := by omega
    refine ⟨⟨tapscriptLeafVersion, first &&& 1 != 0, rest.take 32, chunks 32 depth (rest.drop 32)⟩, ?_, rfl⟩
    simp only [ControlBlock.decode, hmod, hdiv, hlong, hshallow, hversion, hkey,
      leafVersionFromConsensus_tapscript]
    rfl

theorem TapscriptControl.not_annex {control : Bytes} (h : TapscriptControl C control) :
    control.head? ≠ some annexPrefix := by
  obtain ⟨first, rest, rfl, hversion⟩ := h.version
  intro hannex
  obtain rfl : first = annexPrefix := Option.some.inj hannex
  exact absurd hversion (by decide)

theorem detectEnforcedLeaf_of_split {annex : Option Bytes} {control : Bytes} (hlen : 2 ≤ witness.length)
    (hsplit : splitAnnex witness.reverse = (annex, control :: leaf :: stack.reverse))
    (hcontrol : TapscriptControl C control) :
    ∃ block, detectEnforcedLeaf C witness =
      if leafUsesEnforcedOpcode leaf then some ⟨leaf, stack, block, annex⟩ else none := by
  obtain ⟨block, hdecode, hversion⟩ := decode_tapscript_iff.mpr hcontrol
  refine ⟨block, ?_⟩
  rw [detectEnforcedLeaf, if_neg (by omega), hsplit]
  simp only [hdecode, hversion, bind, Option.bind, List.reverse_reverse]
  cases leafUsesEnforcedOpcode leaf with
  | true => rfl
  | false => rfl

/-- What is found in a witness that reveals a leaf. -/
theorem RevealsLeaf.detect (h : RevealsLeaf C leaf stack witness) :
    ∃ block annex, detectEnforcedLeaf C witness =
      if leafUsesEnforcedOpcode leaf then some ⟨leaf, stack, block, annex⟩ else none := by
  cases h with
  | @plain control hcontrol =>
      have hsplit : splitAnnex (stack ++ [leaf, control]).reverse =
          (none, control :: leaf :: stack.reverse) := by
        rw [List.reverse_append]
        exact if_neg hcontrol.not_annex
      have hlen : 2 ≤ (stack ++ [leaf, control]).length := by
        rw [List.length_append]
        exact Nat.le_add_left _ _
      obtain ⟨block, hblock⟩ := detectEnforcedLeaf_of_split hlen hsplit hcontrol
      exact ⟨block, none, hblock⟩
  | @annexed control annex hcontrol hannex =>
      have hsplit : splitAnnex (stack ++ [leaf, control, annex]).reverse =
          (some annex, control :: leaf :: stack.reverse) := by
        rw [List.reverse_append]
        exact if_pos hannex
      have hlen : 2 ≤ (stack ++ [leaf, control, annex]).length := by
        rw [List.length_append]
        exact (Nat.le_succ 2).trans (Nat.le_add_left _ _)
      obtain ⟨block, hblock⟩ := detectEnforcedLeaf_of_split hlen hsplit hcontrol
      exact ⟨block, some annex, hblock⟩

/-! ## Runs -/

theorem foldlM_step_stack {ctx : LeafContext} {items : List Item} {m m' : Machine}
    (h : items.foldlM (step C ctx) m = .ok m') :
    items.foldlM (fun stack item => (execItem C ctx stack item).map Prod.fst) m.stack = .ok m'.stack := by
  induction items generalizing m with
  | nil =>
      obtain rfl := Except.ok.inj h
      rfl
  | cons item items ih =>
      obtain ⟨mid, hstep, hrest⟩ := foldlM_cons_ok_iff.mp h
      obtain ⟨⟨stack, queued⟩, hitem, hmid⟩ := bind_eq_ok_iff.mp hstep
      obtain rfl := Except.ok.inj hmid
      rw [List.foldlM_cons, hitem]
      exact ih hrest

theorem executeLeaf_endsTrue {ctx : LeafContext} {before after : List DeferredCheck}
    (h : executeLeaf C ctx stack before = .ok after) : EndsTrue C ctx stack := by
  obtain ⟨start, hstart, h⟩ := bind_eq_ok_iff.mp h
  obtain ⟨m, hrun, h⟩ := bind_eq_ok_iff.mp h
  obtain ⟨_, hfinal, -⟩ := bind_eq_ok_iff.mp h
  simp only [checkFinalStack] at hfinal
  split at hfinal
  · rename_i item hitem
    split at hfinal
    · rename_i htrue
      exact ⟨start, m.stack, item, hstart, foldlM_step_stack hrun, hitem, htrue⟩
    · cases hfinal
  · cases hfinal

/-- Every input of an accepted transaction has been enforced. -/
theorem enforceTransaction_input (hinput : tx.input[inputIndex]? = some input)
    (h : enforceTransaction C tx prevouts = .ok ()) :
    ∃ before after, enforceInput C tx prevouts before (input, inputIndex) = .ok after := by
  obtain ⟨deferred, hinputs, -⟩ := bind_eq_ok_iff.mp h
  have hmem : (input, inputIndex) ∈ tx.input.zipIdx := List.mem_zipIdx_iff_getElem?.mpr hinput
  obtain ⟨front, back, hsplit⟩ := List.append_of_mem hmem
  rw [hsplit] at hinputs
  obtain ⟨before, -, hrest⟩ := Except.foldlM_append_ok_iff.mp hinputs
  obtain ⟨after, hstep, -⟩ := foldlM_cons_ok_iff.mp hrest
  exact ⟨before, after, hstep⟩

/-- A transaction is accepted only if each leaf that it reveals with an enforced opcode ends true on the
stack below it; an input that reveals a leaf without one is passed over. -/
theorem enforceTransaction_runs (hinput : tx.input[inputIndex]? = some input)
    (hreveals : RevealsLeaf C leaf stack input.witness) :
    (UsesEnforced leaf → enforceTransaction C tx prevouts = .ok () →
      ∃ enforced, detectEnforcedLeaf C input.witness = some enforced ∧ enforced.leaf = leaf ∧
        EndsTrue C (leafContext tx prevouts inputIndex input enforced) stack) ∧
    (¬ UsesEnforced leaf → ∀ deferred,
      enforceInput C tx prevouts deferred (input, inputIndex) = .ok deferred) := by
  obtain ⟨block, annex, hdetect⟩ := hreveals.detect
  constructor
  · intro huses hok
    rw [if_pos (leafUsesEnforcedOpcode_iff.mpr huses)] at hdetect
    obtain ⟨before, after, hstep⟩ := enforceTransaction_input hinput hok
    simp only [enforceInput, hdetect] at hstep
    exact ⟨_, hdetect, rfl, executeLeaf_endsTrue (mapError_eq_ok_iff.mp hstep)⟩
  · intro hnot deferred
    rw [if_neg (mt leafUsesEnforcedOpcode_iff.mp hnot)] at hdetect
    simp only [enforceInput, hdetect]

/-! A transaction whose input reveals a leaf of OP_CAT, behind an annex. -/

def catControl : Bytes := 0xc0 :: List.replicate 32 7

/-- `OP_CAT`, and the byte of OP_CTV as data that OP_DROP takes off again. -/
def catLeaf : Script := [0xfe, 0x01, 0xfd, 0x75]

def catInput : TxIn where
  previousOutput := ⟨[1], 0⟩
  scriptSig := []
  sequence := 0
  witness := [[1], [2], catLeaf, catControl, [annexPrefix]]

def catTx : Transaction where
  version := 2
  lockTime := 0
  input := [catInput]
  output := []

theorem catTx_runs :
    enforceTransaction .sample catTx ∅ = .ok () ∧
    ∃ enforced, detectEnforcedLeaf .sample catInput.witness = some enforced ∧ enforced.leaf = catLeaf ∧
      EndsTrue .sample (leafContext catTx ∅ 0 catInput enforced) [[1], [2]] := by
  have hcontrol : TapscriptControl .sample catControl :=
    ⟨⟨0xc0, _, rfl, by decide⟩, by decide, ⟨0, by decide, by decide⟩⟩
  have hreveals : RevealsLeaf .sample catLeaf [[1], [2]] catInput.witness := .annexed hcontrol rfl
  have huses : UsesEnforced catLeaf := ⟨0xfe, by decide, .here (by decide)⟩
  have hok : enforceTransaction .sample catTx ∅ = .ok () := by decide
  have hinput : catTx.input[0]? = some catInput := rfl
  exact ⟨hok, (enforceTransaction_runs hinput hreveals).1 huses hok⟩

end Bip360Enforcer.Tapscript
