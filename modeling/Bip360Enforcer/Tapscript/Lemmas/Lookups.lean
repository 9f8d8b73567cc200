import Bip360Enforcer.Tapscript.Lemmas.Knowledge
import Bip360Enforcer.Tapscript.Lookups

/-!
# Leaves fail for lack of an output exactly where they look one up that is unknown
-/

namespace Bip360Enforcer.Tapscript

open Except (Avoids Stops trace)

variable {C : Crypto} {ctx ctx' : LeafContext}

/-! ## What looks up nothing -/

abbrev Knows {α : Type} (x : Except InterpError α) : Prop := x.Avoids InterpError.Lacks

theorem Stack.pop_knows (stack : Stack) (opcode : String) : Knows (stack.pop opcode) := by
  unfold Stack.pop
  split
  · exact .error nofun
  · exact .ok _

theorem Stack.top_knows (stack : Stack) (opcode : String) : Knows (stack.top opcode) := by
  unfold Stack.top
  split
  · exact .error nofun
  · exact .ok _

theorem Stack.push_knows (stack : Stack) (item : Bytes) : Knows (stack.push item) := by
  unfold Stack.push
  split_ifs
  · exact .ok _
  · exact .error nofun
  · exact .error nofun

theorem Stack.new_knows (initial : List Bytes) : Knows (Stack.new initial) := by
  unfold Stack.new
  split
  · exact .error nofun
  · split_ifs
    · exact .ok _
    · exact .error nofun

theorem Stack.popN_knows (stack : Stack) (opcode : String) (n : Nat) : Knows (stack.popN opcode n) := by
  induction n generalizing stack with
  | zero => exact .ok _
  | succ n ih => exact (stack.pop_knows opcode).bind fun p _ => (ih p.2).bind fun _ _ => .ok _

theorem readScriptnum_knows (bytes : Bytes) (maxLen : Nat) : Knows (readScriptnum bytes maxLen) := by
  unfold readScriptnum
  refine .ite (fun _ => .error nofun) fun _ => ?_
  split
  · exact .ok _
  · exact .ite (fun _ => .error nofun) fun _ => .ite (fun _ => .ok _) fun _ => .ok _

theorem popNum_knows (stack : Stack) (opcode : String) (maxLen : Nat) :
    Knows (popNum stack opcode maxLen) :=
  (stack.pop_knows opcode).bind fun _ _ => (readScriptnum_knows _ maxLen).bind fun _ _ => .ok _

theorem hashTop_knows (stack : Stack) (opcode : String) (hash : Bytes → Bytes) :
    Knows (hashTop stack opcode hash) :=
  (stack.pop_knows opcode).bind fun p _ => p.2.push_knows _

theorem checkSequence_knows (n : Int64) (tx : Transaction) (inputIndex : Nat) :
    Knows (checkSequence n tx inputIndex) := by
  unfold checkSequence
  refine .ite (fun _ => .ok _) fun _ => .ite (fun _ => .error nofun) fun _ => ?_
  split
  · exact .error nofun
  · exact .ite (fun _ => .error nofun) fun _ => .ite (fun _ => .error nofun) fun _ => .ok _

theorem checkLocktime_knows (n : Int64) (tx : Transaction) (inputIndex : Nat) :
    Knows (checkLocktime n tx inputIndex) := by
  unfold checkLocktime
  refine .ite (fun _ => .error nofun) fun _ => ?_
  split
  · exact .error nofun
  · exact .ite (fun _ => .error nofun) fun _ => .ok _

theorem popVaultArgs_knows (stack : Stack) (numOutputs : Int64) :
    Knows (popVaultArgs stack numOutputs) := by
  refine (stack.pop_knows _).bind fun _ _ => (popNum_knows _ _ _).bind fun _ _ => ?_
  refine .ite (fun _ => .error nofun) fun _ => .ite (fun _ => .error nofun) fun _ => ?_
  refine (Stack.popN_knows _ _ _).bind fun _ _ => (popNum_knows _ _ _).bind fun _ _ => ?_
  refine .ite (fun _ => .error nofun) fun _ => (popNum_knows _ _ _).bind fun _ _ => ?_
  refine .ite (fun _ => .error nofun) fun _ => (popNum_knows _ _ _).bind fun _ _ => ?_
  exact .ite (fun _ => .error nofun) fun _ => .ok _

theorem outputAt_knows (tx : Transaction) (idx : Int64) : Knows (outputAt tx idx) := by
  unfold outputAt
  split
  · exact .ok _
  · exact .error nofun

theorem checkRevaultOut_knows (tx : Transaction) (inputTxout : TxOut) (revaultIdx : Int64) :
    Knows (checkRevaultOut tx inputTxout revaultIdx) := by
  unfold checkRevaultOut
  refine .ite (fun _ => (outputAt_knows _ _).bind fun _ _ => ?_) fun _ => .ok _
  exact .ite (fun _ => .error nofun) fun _ => .ok _

/-! ## Runs with all outputs known -/

/-- The output of each input is known, and the own output is that of the own input. -/
structure LeafContext.Complete (ctx : LeafContext) : Prop where
  all : ∀ input ∈ ctx.tx.input, ∃ txout, ctx.prevouts.lookup input.previousOutput = some txout
  own : ∃ txout, ctx.inputTxout = some txout

section

variable (h : ctx.Complete)

include h

theorem orderedPrevouts_knows : Knows (orderedPrevouts ctx.tx ctx.prevouts) := by
  have hall := h.all
  unfold orderedPrevouts
  generalize ctx.tx.input = inputs at hall ⊢
  induction inputs with
  | nil => exact .ok _
  | cons input inputs ih =>
      rw [List.mapM_cons]
      obtain ⟨txout, htxout⟩ := hall input List.mem_cons_self
      rw [htxout]
      refine (Avoids.ok _).bind fun _ _ => ?_
      exact (ih fun input hin => hall input (List.mem_cons_of_mem _ hin)).bind fun _ _ => .ok _

theorem verifySchnorr_knows (sigBytes pubkeyBytes : Bytes) :
    Knows (verifySchnorr C sigBytes pubkeyBytes ctx) := by
  unfold verifySchnorr
  refine .ite (fun _ => .error nofun) fun _ => .ite (fun _ => .error nofun) fun _ => ?_
  split
  · exact .error nofun
  · refine .ite (fun _ => .error nofun) fun _ => Avoids.bind ?_ fun _ _ => ?_
    · obtain ⟨txout, htxout⟩ := h.own
      refine .ite (fun _ => ?_) fun _ => (orderedPrevouts_knows h).bind fun _ _ => .ok _
      rw [htxout]
      exact .ok _
    · split
      · exact .error nofun
      · exact .ok _

theorem requireSchnorr_knows (sig pubkey : Bytes) : Knows (requireSchnorr C sig pubkey ctx) :=
  (verifySchnorr_knows h sig pubkey).bind fun _ _ => .ite (fun _ => .ok _) fun _ => .error nofun

theorem execStackOp_knows (op : Opcode) (stack : Stack) : Knows (execStackOp C ctx op stack) := by
  cases op with
  | cat =>
      refine (stack.pop_knows _).bind fun p _ => (p.2.pop_knows _).bind fun _ _ => ?_
      exact .ite (fun _ => .error nofun) fun _ => Stack.push_knows _ _
  | ctv =>
      refine (stack.top_knows _).bind fun _ _ => .ite (fun _ => .error nofun) fun _ => ?_
      exact .ite (fun _ => .error nofun) fun _ => .ok _
  | pushnum n => exact Stack.push_knows _ _
  | dup =>
      exact (stack.pop_knows _).bind fun _ _ => (Stack.push_knows _ _).bind fun _ _ => Stack.push_knows _ _
  | drop => exact (stack.pop_knows _).bind fun _ _ => .ok _
  | swap =>
      refine (stack.pop_knows _).bind fun p _ => (p.2.pop_knows _).bind fun _ _ => ?_
      exact (Stack.push_knows _ _).bind fun _ _ => Stack.push_knows _ _
  | equal =>
      exact (stack.pop_knows _).bind fun p _ => (p.2.pop_knows _).bind fun _ _ => Stack.push_knows _ _
  | equalverify =>
      refine (stack.pop_knows _).bind fun p _ => (p.2.pop_knows _).bind fun _ _ => ?_
      exact .ite (fun _ => .ok _) fun _ => .error nofun
  | verify =>
      exact (stack.pop_knows _).bind fun _ _ => .ite (fun _ => .ok _) fun _ => .error nofun
  | sha256 => exact hashTop_knows _ _ _
  | hash256 => exact hashTop_knows _ _ _
  | hash160 => exact hashTop_knows _ _ _
  | ripemd160 => exact hashTop_knows _ _ _
  | csv =>
      refine (stack.top_knows _).bind fun _ _ => (readScriptnum_knows _ _).bind fun _ _ => ?_
      exact .ite (fun _ => .error nofun) fun _ => (checkSequence_knows _ _ _).bind fun _ _ => .ok _
  | cltv =>
      refine (stack.top_knows _).bind fun _ _ => (readScriptnum_knows _ _).bind fun _ _ => ?_
      exact .ite (fun _ => .error nofun) fun _ => (checkLocktime_knows _ _ _).bind fun _ _ => .ok _
  | checksig =>
      refine (stack.pop_knows _).bind fun p _ => (p.2.pop_knows _).bind fun _ _ => ?_
      refine .ite (fun _ => Stack.push_knows _ _) fun _ => ?_
      exact (requireSchnorr_knows h _ _).bind fun _ _ => Stack.push_knows _ _
  | checksigverify =>
      refine (stack.pop_knows _).bind fun p _ => (p.2.pop_knows _).bind fun _ _ => ?_
      refine .ite (fun _ => .error nofun) fun _ => ?_
      exact (requireSchnorr_knows h _ _).bind fun _ _ => .ok _
  | checksigadd =>
      refine (stack.pop_knows _).bind fun p _ => (popNum_knows _ _ _).bind fun q _ => ?_
      refine (q.2.pop_knows _).bind fun _ _ => .ite (fun _ => Stack.push_knows _ _) fun _ => ?_
      exact (requireSchnorr_knows h _ _).bind fun _ _ => Stack.push_knows _ _
  | _ => exact .error nofun

theorem execOpVault_knows (stack : Stack) : Knows (execOpVault C ctx stack) := by
  obtain ⟨txout, htxout⟩ := h.own
  rw [execOpVault, htxout]
  refine (popVaultArgs_knows _ _).bind fun _ _ => (outputAt_knows _ _).bind fun _ _ => ?_
  refine .ite (fun _ => .error nofun) fun _ => .ite (fun _ => .error nofun) fun _ => ?_
  refine (checkRevaultOut_knows _ _ _).bind fun _ _ => ?_
  split
  · exact .error nofun
  · exact .ite (fun _ => .error nofun) fun _ => (Stack.push_knows _ _).bind fun _ _ => .ok _

theorem execOpVaultRecover_knows (stack : Stack) : Knows (execOpVaultRecover C ctx stack) := by
  obtain ⟨txout, htxout⟩ := h.own
  rw [execOpVaultRecover, htxout]
  refine (stack.pop_knows _).bind fun _ _ => .ite (fun _ => .error nofun) fun _ => ?_
  refine (popNum_knows _ _ _).bind fun _ _ => .ite (fun _ => .error nofun) fun _ => ?_
  refine (outputAt_knows _ _).bind fun _ _ => .ite (fun _ => .error nofun) fun _ => ?_
  exact (Stack.push_knows _ _).bind fun _ _ => .ok _

theorem step_knows (m : Machine) (item : Item) : Knows (step C ctx m item) := by
  refine Avoids.bind ?_ fun _ _ => .ok _
  cases item with
  | none => exact .error nofun
  | some instruction =>
      cases instruction with
      | pushBytes bytes => exact (Stack.push_knows _ _).bind fun _ _ => .ok _
      | op op =>
          change Knows (execOp C ctx op m.stack)
          unfold execOp
          split
          · exact (execOpVault_knows h _).bind fun _ _ => .ok _
          · exact (execOpVaultRecover_knows h _).bind fun _ _ => .ok _
          · exact (execStackOp_knows h op _).bind fun _ _ => .ok _

theorem executeLeaf_knows (initialStack : List Bytes) (deferred : List DeferredCheck) :
    Knows (executeLeaf C ctx initialStack deferred) := by
  refine (Stack.new_knows initialStack).bind fun _ _ => ?_
  refine (Avoids.foldlM (fun item _ m => step_knows h m item) _).bind fun _ _ => ?_
  refine Avoids.bind ?_ fun _ _ => .ok _
  unfold checkFinalStack
  split
  · exact .ite (fun _ => .ok _) fun _ => .error nofun
  · exact .error nofun

end

/-! ## Only outputs that the transaction spends -/

theorem ownOutpoint_subset (ctx : LeafContext) :
    ctx.ownOutpoint ⊆ ctx.tx.input.map TxIn.previousOutput := by
  unfold LeafContext.ownOutpoint
  cases hinput : ctx.tx.input[ctx.inputIndex]? with
  | none => simp
  | some input => simpa using ⟨input, List.mem_of_getElem? hinput, rfl⟩

theorem signatureOutpoints_subset (sigBytes pubkeyBytes : Bytes) :
    signatureOutpoints C sigBytes pubkeyBytes ctx ⊆ ctx.tx.input.map TxIn.previousOutput := by
  unfold signatureOutpoints
  split
  · exact List.nil_subset _
  · split
    · exact List.nil_subset _
    · split
      · exact List.nil_subset _
      · split
        · exact List.nil_subset _
        · unfold sighashOutpoints
          split
          · exact ownOutpoint_subset ctx
          · exact List.Subset.refl _

theorem opcodeOutpoints_subset (op : Opcode) (items : List Bytes) :
    opcodeOutpoints C ctx op items ⊆ ctx.tx.input.map TxIn.previousOutput := by
  have hsig : ∀ (p : Prop) [Decidable p] (sig pubkey : Bytes),
      (if p then [] else signatureOutpoints C sig pubkey ctx) ⊆ ctx.tx.input.map TxIn.previousOutput := by
    intro p _ sig pubkey
    split
    · exact List.nil_subset _
    · exact signatureOutpoints_subset sig pubkey
  unfold opcodeOutpoints
  split
  · exact ownOutpoint_subset ctx
  · exact ownOutpoint_subset ctx
  · split
    · exact hsig _ _ _
    · exact List.nil_subset _
  · split
    · exact hsig _ _ _
    · exact List.nil_subset _
  · split
    · exact hsig _ _ _
    · exact List.nil_subset _
  · exact List.nil_subset _

theorem enforceOutpoints_subset {tx : Transaction} {prevouts : PrevoutMap} :
    enforceOutpoints C tx prevouts ⊆ tx.input.map TxIn.previousOutput := by
  intro op hop
  obtain ⟨deferred, ⟨input, inputIndex⟩, -, hop⟩ := Except.mem_trace hop
  simp only [enforceInputOutpoints] at hop
  split at hop
  · cases hop
  · unfold leafOutpoints at hop
    split at hop
    · cases hop
    · obtain ⟨m, item, -, hop⟩ := Except.mem_trace hop
      unfold itemOutpoints at hop
      split at hop
      · exact opcodeOutpoints_subset _ _ hop
      · cases hop

/-! ## Runs with outputs unknown -/

/-- One of the outpoints is not known. -/
abbrev Missing (prevouts : PrevoutMap) (outpoints : List OutPoint) : Prop :=
  ∃ outpoint ∈ outpoints, prevouts.lookup outpoint = none

theorem not_missing_nil {prevouts : PrevoutMap} : ¬ Missing prevouts [] := by
  rintro ⟨outpoint, hin, -⟩
  cases hin

/-- `ctx'` knows more than `ctx`, of which the own output is that of the own outpoint. -/
structure LeafContext.Fills (ctx ctx' : LeafContext) : Prop extends ctx.KnownIn ctx' where
  own : ∃ input, ctx.tx.input[ctx.inputIndex]? = some input ∧
    ctx.inputTxout = ctx.prevouts.lookup input.previousOutput

/-- Computations that stop where one of the outpoints is not known. -/
abbrev StopsAt {α : Type} (prevouts : PrevoutMap) (outpoints : List OutPoint) :
    Except InterpError α → Except InterpError α → Prop :=
  Stops InterpError.Lacks (Missing prevouts outpoints) Eq

section

variable (h : ctx.Fills ctx')

include h

theorem missing_own : Missing ctx.prevouts ctx'.ownOutpoint ↔ ctx.inputTxout = none := by
  obtain ⟨input, hinput, hown⟩ := h.own
  rw [LeafContext.ownOutpoint, h.tx, h.inputIndex, hinput, hown]
  simp [Missing]

theorem orderedPrevouts_stops : StopsAt ctx.prevouts (ctx'.tx.input.map TxIn.previousOutput)
    (orderedPrevouts ctx.tx ctx.prevouts) (orderedPrevouts ctx'.tx ctx'.prevouts) := by
  rw [h.tx]
  unfold orderedPrevouts
  generalize ctx.tx.input = inputs
  induction inputs with
  | nil => exact .of_eq not_missing_nil rfl
  | cons input inputs ih =>
      rw [List.mapM_cons, List.mapM_cons]
      cases hknown : ctx.prevouts.lookup input.previousOutput with
      | none => exact .lacks ⟨_, List.mem_cons_self, hknown⟩ .missingPrevout
      | some txout =>
          rw [h.prevouts _ _ hknown]
          refine (ih.bind_left (f := fun txouts => .ok (txout :: txouts))).congr ?_
          simp [Missing, hknown]

theorem sighashPrevouts_stops (sighashType : TapSighashType) :
    StopsAt ctx.prevouts (sighashOutpoints ctx' sighashType) (sighashPrevouts ctx sighashType)
      (sighashPrevouts ctx' sighashType) := by
  unfold sighashPrevouts sighashOutpoints
  split
  · cases hown : ctx.inputTxout with
    | none => exact .lacks ((missing_own h).mpr hown) .missingPrevout
    | some txout =>
        rw [h.inputTxout _ hown, h.inputIndex]
        exact .of_eq (by rw [missing_own h, hown]; simp) rfl
  · exact (orderedPrevouts_stops h).bind_left

theorem verifySchnorr_stops (sigBytes pubkeyBytes : Bytes) :
    StopsAt ctx.prevouts (signatureOutpoints C sigBytes pubkeyBytes ctx')
      (verifySchnorr C sigBytes pubkeyBytes ctx) (verifySchnorr C sigBytes pubkeyBytes ctx') := by
  unfold verifySchnorr signatureOutpoints
  rw [h.tx, h.inputIndex, h.annex, h.leaf]
  split
  · exact .of_eq not_missing_nil rfl
  · split
    · exact .of_eq not_missing_nil rfl
    · cases TaprootSignature.fromSlice sigBytes with
      | none => exact .of_eq not_missing_nil rfl
      | some sig =>
          dsimp only
          split
          · exact .of_eq not_missing_nil rfl
          · exact (sighashPrevouts_stops h sig.sighashType).bind_left

/-- The empty signature is not checked. -/
theorem checkSig_stops {α : Type} (sig pubkey : Bytes) (x : Except InterpError α)
    (f : Unit → Except InterpError α) :
    StopsAt ctx.prevouts (if sig.isEmpty then [] else signatureOutpoints C sig pubkey ctx')
      (if sig.isEmpty then x else requireSchnorr C sig pubkey ctx >>= f)
      (if sig.isEmpty then x else requireSchnorr C sig pubkey ctx' >>= f) := by
  split
  · exact .of_eq not_missing_nil rfl
  · exact (verifySchnorr_stops h sig pubkey).bind_left.bind_left

/-! ## Opcodes -/

theorem execStackOp_stops {op : Opcode} (hvault : op ≠ .vault) (hrecover : op ≠ .vaultRecover)
    (stack : Stack) : StopsAt ctx.prevouts (opcodeOutpoints C ctx' op stack.items)
      (execStackOp C ctx op stack) (execStackOp C ctx' op stack) := by
  cases op with
  | checksig =>
      obtain ⟨_ | ⟨pubkey, _ | ⟨sig, items⟩⟩, hitems, hlen⟩ := stack
      · exact .of_eq not_missing_nil rfl
      · exact .of_eq not_missing_nil rfl
      · exact checkSig_stops h sig pubkey _ _
  | checksigverify =>
      obtain ⟨_ | ⟨pubkey, _ | ⟨sig, items⟩⟩, hitems, hlen⟩ := stack
      · exact .of_eq not_missing_nil rfl
      · exact .of_eq not_missing_nil rfl
      · exact checkSig_stops h sig pubkey _ _
  | checksigadd =>
      obtain ⟨_ | ⟨pubkey, _ | ⟨n, items⟩⟩, hitems, hlen⟩ := stack
      · exact .of_eq not_missing_nil rfl
      · exact .of_eq not_missing_nil rfl
      · cases hn : readScriptnum n 4 with
        | error e =>
            have hrun : ∀ ctx : LeafContext, execStackOp C ctx .checksigadd
                ⟨pubkey :: n :: items, hitems, hlen⟩ = .error e := by
              intro ctx
              simp only [execStackOp, popNum, Stack.pop, bind, Except.bind, hn]
            rw [hrun, hrun]
            refine .of_eq ?_ rfl
            cases items with
            | nil => exact not_missing_nil
            | cons sig items => simp [opcodeOutpoints, hn, Except.isOk, Except.toBool]
        | ok v =>
            cases items with
            | nil =>
                simp only [execStackOp, popNum, Stack.pop, bind, Except.bind, hn]
                exact .of_eq not_missing_nil rfl
            | cons sig items =>
                let rest : Stack := ⟨items, fun i hi => hitems i (by simp [hi]), by simp at hlen; omega⟩
                have hsig := checkSig_stops (C := C) h sig pubkey (rest.push (encodeScriptnum v))
                  fun _ => rest.push (encodeScriptnum (v + 1))
                simpa only [opcodeOutpoints, execStackOp, popNum, Stack.pop, bind, Except.bind, hn,
                  Except.isOk, Except.toBool, Bool.not_true, Bool.or_false] using hsig
  | vault => exact absurd rfl hvault
  | vaultRecover => exact absurd rfl hrecover
  | _ => exact .of_eq not_missing_nil (by simp only [execStackOp, h.tx, h.inputIndex])

theorem execOpVault_stops (stack : Stack) : StopsAt ctx.prevouts ctx'.ownOutpoint
    (execOpVault C ctx stack) (execOpVault C ctx' stack) := by
  unfold execOpVault
  cases hown : ctx.inputTxout with
  | none => exact .lacks ((missing_own h).mpr hown) .missingPrevout
  | some txout =>
      rw [h.inputTxout _ hown, h.tx, h.control]
      exact .of_eq (by rw [missing_own h, hown]; simp) rfl

theorem execOpVaultRecover_stops (stack : Stack) : StopsAt ctx.prevouts ctx'.ownOutpoint
    (execOpVaultRecover C ctx stack) (execOpVaultRecover C ctx' stack) := by
  unfold execOpVaultRecover
  cases hown : ctx.inputTxout with
  | none => exact .lacks ((missing_own h).mpr hown) .missingPrevout
  | some txout =>
      rw [h.inputTxout _ hown, h.tx]
      exact .of_eq (by rw [missing_own h, hown]; simp) rfl

theorem execOp_stops (op : Opcode) (stack : Stack) :
    StopsAt ctx.prevouts (opcodeOutpoints C ctx' op stack.items) (execOp C ctx op stack)
      (execOp C ctx' op stack) := by
  by_cases hvault : op = .vault
  · subst hvault
    exact (execOpVault_stops h stack).bind_left
  · by_cases hrecover : op = .vaultRecover
    · subst hrecover
      exact (execOpVaultRecover_stops h stack).bind_left
    · have hstack := execStackOp_stops (C := C) h hvault hrecover stack
      unfold execOp
      split
      · exact absurd rfl hvault
      · exact absurd rfl hrecover
      · exact hstack.bind_left

/-! ## Leaves -/

theorem step_stops (m : Machine) (item : Item) : StopsAt ctx.prevouts (itemOutpoints C ctx' m item)
    (step C ctx m item) (step C ctx' m item) := by
  unfold step
  refine Stops.bind_left ?_
  cases item with
  | none => exact .of_eq not_missing_nil rfl
  | some instruction =>
      cases instruction with
      | pushBytes bytes => exact .of_eq not_missing_nil rfl
      | op op => exact execOp_stops h op m.stack

theorem executeLeaf_stops (initialStack : List Bytes) (deferred : List DeferredCheck) :
    StopsAt ctx.prevouts (leafOutpoints C ctx' initialStack deferred)
      (executeLeaf C ctx initialStack deferred) (executeLeaf C ctx' initialStack deferred) := by
  unfold executeLeaf leafOutpoints
  rw [h.leaf]
  cases Stack.new initialStack with
  | error e => exact .of_agree not_missing_nil (.error e)
  | ok stack =>
      have hrun : StopsAt ctx.prevouts
          (trace (step C ctx') (itemOutpoints C ctx') ⟨stack, deferred⟩ (instructions ctx.leaf))
          ((instructions ctx.leaf).foldlM (step C ctx) ⟨stack, deferred⟩)
          ((instructions ctx.leaf).foldlM (step C ctx') ⟨stack, deferred⟩) := by
        refine Stops.foldlM (S := fun _ => Eq) rfl ?_
        rintro item rest m _ rfl
        exact step_stops h m item
      exact hrun.bind_left

end

/-! ## Transactions -/

variable {prevouts prevouts' : PrevoutMap}

theorem enforceTransaction_knows {tx : Transaction}
    (hall : ∀ input ∈ tx.input, ∃ txout, prevouts.lookup input.previousOutput = some txout) :
    (enforceTransaction C tx prevouts).Avoids TapscriptError.Lacks := by
  refine Avoids.bind (Avoids.foldlM ?_ _) fun deferred _ => ?_
  · rintro ⟨input, inputIndex⟩ hentry deferred
    simp only [enforceInput]
    split
    · exact .ok _
    · rename_i enforced _
      have hcomplete : (leafContext tx prevouts inputIndex input enforced).Complete :=
        ⟨hall, hall input (List.mem_of_getElem? (List.mem_zipIdx_iff_getElem?.mp hentry))⟩
      refine (executeLeaf_knows hcomplete _ _).mapError ?_
      rintro e he ⟨-, hlacks⟩
      exact he hlacks
  · have hany : (evaluateDeferredChecks deferred tx).Avoids fun _ => False := fun _ _ hf => hf
    refine hany.mapError ?_
    intro e _ hlacks
    cases hlacks

section

variable (h : KnownIn prevouts prevouts') (tx : Transaction)

include h

theorem enforceInput_stops (deferred : List DeferredCheck) {input : TxIn} {inputIndex : Nat}
    (hinput : tx.input[inputIndex]? = some input) :
    Stops TapscriptError.Lacks
      (Missing prevouts (enforceInputOutpoints C tx prevouts' deferred (input, inputIndex))) Eq
      (enforceInput C tx prevouts deferred (input, inputIndex))
      (enforceInput C tx prevouts' deferred (input, inputIndex)) := by
  simp only [enforceInput, enforceInputOutpoints]
  cases detectEnforcedLeaf C input.witness with
  | none => exact .of_eq not_missing_nil rfl
  | some enforced =>
      have hfills : (leafContext tx prevouts inputIndex input enforced).Fills
          (leafContext tx prevouts' inputIndex input enforced) :=
        ⟨leafContext_knownIn h tx inputIndex input enforced, input, hinput, rfl⟩
      exact (executeLeaf_stops hfills _ _).mapError fun _ he => .interp inputIndex he

theorem enforceTransaction_stops : Stops TapscriptError.Lacks
    (Missing prevouts (enforceOutpoints C tx prevouts')) Eq (enforceTransaction C tx prevouts)
    (enforceTransaction C tx prevouts') := by
  unfold enforceTransaction enforceOutpoints
  -- The items still to come are inputs with their places.
  let S : List (TxIn × Nat) → List DeferredCheck → List DeferredCheck → Prop := fun rest s t =>
    (∀ entry ∈ rest, tx.input[entry.2]? = some entry.1) ∧ s = t
  have hstart : S tx.input.zipIdx [] [] :=
    ⟨fun _ hentry => (List.mem_zipIdx_iff_getElem?.mp hentry), rfl⟩
  refine Stops.bind_left ((Stops.foldlM hstart ?_).mono fun _ _ hst => hst.2)
  rintro ⟨input, inputIndex⟩ rest deferred _ ⟨hinputs, rfl⟩
  have hinput : tx.input[inputIndex]? = some input := hinputs _ List.mem_cons_self
  refine (enforceInput_stops h tx deferred hinput).mono ?_
  rintro a _ rfl
  exact ⟨fun entry hentry => hinputs entry (List.mem_cons_of_mem _ hentry), rfl⟩

end

end Bip360Enforcer.Tapscript
