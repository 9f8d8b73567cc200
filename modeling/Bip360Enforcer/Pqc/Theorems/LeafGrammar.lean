import Bip360Enforcer.Pqc.LeafGrammar
import Bip360Enforcer.Pqc.Lemmas.Signer

/-!
# Which leaves of the grammar are parsed
-/

namespace Bip360Enforcer.Pqc

open Tapscript (instructions_of_next nextInstruction_direct nextInstruction_opcode nextInstruction_write)

variable {rest : Bytes} {st : ParserState}

/-! ## Reading the bytes -/

theorem KeyPush.instructions_script (push : KeyPush) :
    instructions (push.script ++ rest) = push.item :: instructions rest :=
  instructions_of_next (nextInstruction_write push.fits)

theorem instructions_keys (pushes : List KeyPush) :
    instructions (pushes.flatMap KeyPush.script ++ rest) = pushes.map KeyPush.item ++ instructions rest := by
  induction pushes with
  | nil => rfl
  | cons push pushes ih =>
      rw [List.flatMap_cons, List.append_assoc, push.instructions_script, ih]
      rfl

theorem instructions_pushnum (n : Fin 16) :
    instructions ((Opcode.pushnum n).toU8 :: rest) = some (.op (.pushnum n)) :: instructions rest := by
  have hall : ∀ n : Fin 16, 0x4e < (Opcode.pushnum n).toU8.toNat ∧
      Opcode.fromU8 (Opcode.pushnum n).toU8 = .pushnum n := by decide
  obtain ⟨hbyte, hop⟩ := hall n
  have hnext := @nextInstruction_opcode rest _ hbyte
  rw [hop] at hnext
  exact instructions_of_next hnext

theorem SingleCheck.instructions_opcode (check : SingleCheck) :
    instructions (check.opcode.toU8 :: rest) = some (.op check.opcode) :: instructions rest := by
  cases check <;> exact instructions_of_next (nextInstruction_opcode (by decide))

theorem MultiCheck.instructions_opcode (check : MultiCheck) :
    instructions (check.opcode.toU8 :: rest) = some (.op check.opcode) :: instructions rest := by
  cases check <;> exact instructions_of_next (nextInstruction_opcode (by decide))

theorem Combinator.instructions_byte (c : Combinator) :
    instructions (c.byte :: rest) = c.item :: instructions rest := by
  cases c with
  | booland => exact instructions_of_next (nextInstruction_opcode (by decide))
  | verify => exact instructions_of_next (nextInstruction_opcode (by decide))
  | opTrue => exact instructions_pushnum 0

theorem Group.instructions_script (group : Group) :
    instructions (group.script ++ rest) = group.items ++ instructions rest := by
  cases group with
  | single push check =>
      rw [Group.script, List.append_assoc, push.instructions_script]
      exact congrArg _ check.instructions_opcode
  | multi pushes n count check =>
      have hdummy := @nextInstruction_direct []
        (pushes.flatMap KeyPush.script ++ ((Opcode.pushnum n).toU8 :: check.opcode.toU8 :: rest))
        (by decide)
      rw [Group.script, List.cons_append, List.append_assoc]
      refine (instructions_of_next hdummy).trans ?_
      rw [instructions_keys, instructions_pushnum, check.instructions_opcode]
      simp [Group.items]

theorem instructions_combinators (cs : List Combinator) :
    instructions (cs.map Combinator.byte ++ rest) = cs.map Combinator.item ++ instructions rest := by
  induction cs with
  | nil => rfl
  | cons c cs ih =>
      rw [List.map_cons, List.cons_append, c.instructions_byte, ih]
      rfl

theorem instructions_sections (sections : List Section) :
    instructions (sections.flatMap Section.script) = sections.flatMap Section.items := by
  induction sections with
  | nil => rfl
  | cons s sections ih =>
      rw [List.flatMap_cons, Section.script, List.append_assoc, s.group.instructions_script,
        instructions_combinators, ih, List.flatMap_cons, Section.items, List.append_assoc]

/-! ## Parsing the items -/

theorem KeyPush.ne_nil (push : KeyPush) : push.key ≠ [] := by
  intro h
  have hsize := push.size
  rw [h] at hsize
  rcases hsize with hsize | hsize <;> cases hsize

theorem KeyPush.parseItem_item (push : KeyPush) : parseItem st push.item =
    .ok { st with pushBuffer := st.pushBuffer ++ [push.key], lastPush := some push.key } := by
  simp [KeyPush.item, parseItem, parsePush, push.ne_nil]

theorem foldlM_keys (pushes : List KeyPush) (items : List Item) (st : ParserState) :
    ∃ lastPush, (pushes.map KeyPush.item ++ items).foldlM parseItem st =
      items.foldlM parseItem
        { st with pushBuffer := st.pushBuffer ++ pushes.map KeyPush.key, lastPush := lastPush } := by
  induction pushes generalizing st with
  | nil => exact ⟨st.lastPush, by simp⟩
  | cons push pushes ih =>
      obtain ⟨lastPush, hfold⟩ :=
        ih { st with pushBuffer := st.pushBuffer ++ [push.key], lastPush := some push.key }
      refine ⟨lastPush, ?_⟩
      rw [List.map_cons, List.cons_append, List.foldlM_cons, push.parseItem_item]
      refine hfold.trans ?_
      rw [List.append_assoc, List.map_cons, List.singleton_append]

theorem KeyPush.pushSingleSigSite (push : KeyPush) (opcode : Opcode) (sites : List SigCheckSite) :
    Pqc.pushSingleSigSite opcode sites push.key = .ok (sites ++ [push.site opcode]) := by
  rw [Pqc.pushSingleSigSite, validatePubkeySize, if_pos push.size]
  rfl

theorem foldlM_sites (pushes : List KeyPush) (opcode : Opcode) (sites : List SigCheckSite) :
    (pushes.map KeyPush.key).foldlM (pushSingleSigSite opcode) sites =
      .ok (sites ++ pushes.map (KeyPush.site opcode)) := by
  induction pushes generalizing sites with
  | nil =>
      rw [List.map_nil, List.map_nil, List.append_nil]
      rfl
  | cons push pushes ih =>
      rw [List.map_cons, List.foldlM_cons, push.pushSingleSigSite]
      refine (ih _).trans ?_
      rw [List.append_assoc, List.map_cons, List.singleton_append]

theorem parseItem_pushnum (n : Fin 16) : parseItem st (some (.op (.pushnum n))) =
    .ok { st with pendingMultisigKeys := some (n + 1), lastPush := none } := rfl

theorem SingleCheck.parseItem_opcode {check : SingleCheck} {push : KeyPush}
    (h : st.lastPush = some push.key) : parseItem st (some (.op check.opcode)) =
      .ok ⟨st.sigSites ++ [push.site check.opcode], none, [], none⟩ := by
  have hparse : parseItem st (some (.op check.opcode)) =
      (do
        let sigSites ← pushSingleSigSite check.opcode st.sigSites push.key
        .ok ⟨sigSites, none, [], none⟩) := by
    cases check <;> simp [parseItem, parseSigCheck, isSigCheckOpcode, sigCheckOpcodes, SingleCheck.opcode, h]
  rw [hparse, push.pushSingleSigSite]
  rfl

theorem MultiCheck.parseItem_opcode {check : MultiCheck} {pushes : List KeyPush}
    (hbuffer : st.pushBuffer = pushes.map KeyPush.key)
    (hpending : st.pendingMultisigKeys = some pushes.length) :
    parseItem st (some (.op check.opcode)) =
      .ok ⟨st.sigSites ++ pushes.map (KeyPush.site check.opcode), none, [], none⟩ := by
  have hparse : parseItem st (some (.op check.opcode)) =
      (do
        let st ← pushMultisigSites { st with pendingMultisigKeys := none } pushes.length check.opcode
        .ok { st with lastPush := none }) := by
    cases check <;>
      simp [parseItem, parseSigCheck, isSigCheckOpcode, sigCheckOpcodes, MultiCheck.opcode, hpending]
  have hsites := foldlM_sites pushes check.opcode st.sigSites
  simp only [hparse, pushMultisigSites, hbuffer, List.length_map, lt_irrefl, if_false, Nat.sub_self,
    List.drop_zero, List.take_zero, hsites]
  rfl

/-- After a group nothing of it is left for the next one. -/
theorem Group.foldlM_items (group : Group) (items : List Item) (hbuffer : st.pushBuffer = []) :
    (group.items ++ items).foldlM parseItem st =
      items.foldlM parseItem ⟨st.sigSites ++ group.sites, none, [], none⟩ := by
  cases group with
  | single push check =>
      rw [Group.items, List.cons_append, List.foldlM_cons, push.parseItem_item]
      change (parseItem _ _ >>= _) = _
      rw [SingleCheck.parseItem_opcode rfl]
      rfl
  | multi pushes n count check =>
      have hdummy : parseItem st (some (.pushBytes [])) = .ok { st with lastPush := none } := rfl
      rw [Group.items, List.cons_append, List.foldlM_cons, hdummy, List.append_assoc]
      obtain ⟨lastPush, hkeys⟩ := foldlM_keys pushes
        ([some (.op (.pushnum n)), some (.op check.opcode)] ++ items) { st with lastPush := none }
      refine hkeys.trans ?_
      rw [List.cons_append, List.foldlM_cons, parseItem_pushnum]
      change (parseItem _ _ >>= _) = _
      rw [@MultiCheck.parseItem_opcode _ check pushes (by rw [hbuffer, List.nil_append]) (by rw [count])]
      rfl

/-- Of the combinators, OP_TRUE is read as a key count. -/
theorem foldlM_combinators (cs : List Combinator) (items : List Item) (st : ParserState)
    (hlast : st.lastPush = none) :
    (cs.map Combinator.item ++ items).foldlM parseItem st =
      items.foldlM parseItem
        { st with pendingMultisigKeys := if .opTrue ∈ cs then some 1 else st.pendingMultisigKeys } := by
  induction cs generalizing st with
  | nil => simp
  | cons c cs ih =>
      have hstep : parseItem st c.item = .ok { st with
          pendingMultisigKeys := if c = .opTrue then some 1 else st.pendingMultisigKeys } := by
        cases c with
        | booland => exact congrArg Except.ok (by rw [← hlast]; rfl)
        | verify => exact congrArg Except.ok (by rw [← hlast]; rfl)
        | opTrue => exact congrArg Except.ok (by rw [← hlast]; rfl)
      rw [List.map_cons, List.cons_append, List.foldlM_cons, hstep]
      refine (ih { st with
        pendingMultisigKeys := if c = .opTrue then some 1 else st.pendingMultisigKeys } hlast).trans ?_
      by_cases hmem : Combinator.opTrue ∈ cs
      · simp [hmem]
      · cases c <;> simp [hmem]

/-- Only the combinators after the last group leave a count behind. -/
theorem foldlM_sections (sections : List Section) (hne : sections ≠ []) (hbuffer : st.pushBuffer = []) :
    (sections.flatMap Section.items).foldlM parseItem st = .ok ⟨
      st.sigSites ++ sections.flatMap fun s => s.group.sites, none, [],
      if .opTrue ∈ (sections.getLast hne).combinators then some 1 else none⟩ := by
  induction sections generalizing st with
  | nil => exact absurd rfl hne
  | cons s sections ih =>
      rw [List.flatMap_cons, Section.items, List.append_assoc, s.group.foldlM_items _ hbuffer,
        foldlM_combinators _ _ _ rfl]
      cases sections with
      | nil =>
          simp only [List.flatMap_cons, List.flatMap_nil, List.append_nil, List.foldlM_nil]
          rfl
      | cons next sections =>
          rw [ih (List.cons_ne_nil _ _) rfl]
          simp

/-! ## Leaves -/

theorem Leaf.script_ne_nil (leaf : Leaf) : leaf.script ≠ [] := by
  have hgroup : ∀ group : Group, group.script ≠ [] := by
    intro group
    cases group with
    | single push check => simp [Group.script]
    | multi pushes n count check => simp [Group.script]
  intro hnil
  rw [Leaf.script, List.flatMap_eq_nil_iff] at hnil
  have hlast := hnil _ (List.getLast_mem leaf.nonempty)
  rw [Section.script, List.append_eq_nil_iff] at hlast
  exact hgroup _ hlast.1

theorem Leaf.sites_ne_nil (leaf : Leaf) : leaf.sites ≠ [] := by
  have hgroup : ∀ group : Group, group.sites ≠ [] := by
    intro group
    cases group with
    | single push check => exact List.cons_ne_nil _ _
    | multi pushes n count check =>
        intro hnil
        rw [Group.sites, List.map_eq_nil_iff] at hnil
        rw [hnil] at count
        cases count
  intro hnil
  rw [Leaf.sites, List.flatMap_eq_nil_iff] at hnil
  exact hgroup _ (hnil _ (List.getLast_mem leaf.nonempty))

/-- A leaf of the grammar is parsed into its sites, unless OP_TRUE comes after the last group. -/
theorem parseLeafScript_leaf_iff (leaf : Leaf) (hsize : leaf.script.length ≤ maxP2mrLeafScriptSize) :
    parseLeafScript leaf.script = .ok ⟨leaf.sites⟩ ↔ .opTrue ∉ leaf.trailing := by
  have hempty : leaf.script.isEmpty = false := by simpa using leaf.script_ne_nil
  have hitems : instructions leaf.script = leaf.sections.flatMap Section.items :=
    instructions_sections leaf.sections
  have hfold := @foldlM_sections .initial leaf.sections leaf.nonempty rfl
  rw [parseLeafScript, hempty, if_neg (by decide), if_neg (Nat.not_lt.mpr hsize), hitems, hfold]
  constructor
  · intro h hmem
    have hmem : Combinator.opTrue ∈ (leaf.sections.getLast leaf.nonempty).combinators := hmem
    simp [bind, Except.bind, hmem] at h
  · intro hnot
    have hnot : Combinator.opTrue ∉ (leaf.sections.getLast leaf.nonempty).combinators := hnot
    have hsites : leaf.sites ≠ [] := leaf.sites_ne_nil
    simp only [bind, Except.bind, hnot, if_false, Option.isSome_none, Bool.false_eq_true]
    exact if_neg (by simpa [ParserState.initial, Leaf.sites] using hsites)

/-! Leaves of the two kinds of group; the second ends in OP_TRUE. -/

def sampleKey (byte : UInt8) : KeyPush where
  key := List.replicate 32 byte
  form := .pushdata1
  size := .inl List.length_replicate
  fits := by
    rw [List.length_replicate]
    decide

def trueBetween : Leaf where
  sections := [⟨.single (sampleKey 1) .checksig, [.opTrue, .booland]⟩,
    ⟨.multi [sampleKey 2, sampleKey 3] ⟨1, by decide⟩ rfl .checkmultisigverify, [.verify]⟩]
  nonempty := List.cons_ne_nil _ _

def trueTrailing : Leaf where
  sections := [⟨.single (sampleKey 1) .checksig, [.opTrue]⟩]
  nonempty := List.cons_ne_nil _ _

theorem trueBetween_parsed : trueBetween.script.length ≤ maxP2mrLeafScriptSize ∧
    parseLeafScript trueBetween.script = .ok ⟨trueBetween.sites⟩ :=
  ⟨by decide, (parseLeafScript_leaf_iff trueBetween (by decide)).mpr (by decide)⟩

theorem trueTrailing_refused : trueTrailing.script.length ≤ maxP2mrLeafScriptSize ∧
    parseLeafScript trueTrailing.script = .error .danglingMultisigKeyCount := by
  constructor
  · decide
  · decide

end Bip360Enforcer.Pqc
