import Bip360Enforcer.Validator.Lemmas.Batch

/-!
# Why blocks are accepted and rejected
-/

namespace Bip360Enforcer.Validator

open Pqc (PqcValidationError validateAndDiffBlockTransactions)
open Program (wp)

variable {C : Crypto} {handler : BlockHandler} {block : Block} {dbs : Dbs}

/-! ## Verdicts of the handler -/

/-- What speaks against a block that is rejected with the given error. -/
inductive Judged (C : Crypto) (handler : BlockHandler) (block : Block) (dbs : Dbs) :
    ConnectBlockError → Prop where
  | parent {parent tip : BlockHash} {tipHeight : Nat}
      (h : dbs.currentChainTip.getD .allZeros ≠ block.header.prevBlockhash) :
      Judged C handler block dbs (.blockParent parent tip tipHeight)
  | noCoinbase (h : block.txdata = []) : Judged C handler block dbs .noCoinbase
  | rules {blockHash : BlockHash} {source : PqcValidationError} {height : Nat}
      (hasHeight : dbs.height.lookup (C.blockHash block.header) = some height)
      (invalid : validateAndDiffBlockTransactions C (handler.clock (C.blockHash block.header)) block
        height handler.activation dbs.p2mrUtxos handler.extraPrevouts handler.pqcVerifyBudgetMs =
          .error source) : Judged C handler block dbs (.bip360 blockHash source)

theorem checkParent_judged : Spec (BlockHandler.checkParent block.header.prevBlockhash) dbs
    (fun _ d => d = dbs) (fun e _ => e.isFatal = true ∨ Judged C handler block dbs e)
    fun e => e.isFatal = true := by
  refine Spec.bind (Spec.read rfl ?_)
  cases htip : dbs.currentChainTip with
  | none =>
      refine Spec.ite (fun _ => Spec.pure rfl) fun hne => Spec.fail (.inr (.parent ?_))
      rw [htip]
      exact fun heq => hne heq.symm
  | some tip =>
      refine Spec.ite (fun _ => Spec.pure rfl) fun hne => ?_
      refine Spec.bind (attempt_get_spec.mono (fun _ _ _ => ?_) (fun _ _ h => h) fun _ h => h)
      refine Spec.fail (.inr (.parent ?_))
      rw [htip]
      exact fun heq => hne heq.symm

theorem connectBlock_judged : Spec (handler.connectBlock C block) dbs (fun _ _ => True)
    (fun e _ => e.isFatal = true ∨ Judged C handler block dbs e) fun e => e.isFatal = true := by
  have hio : (fun e : ConnectBlockError => e.isFatal = true) (fromDb .io) := rfl
  have hioInfo : (fun e : PutBlockInfoError => (ConnectBlockError.putBlockInfo e).isFatal = true) (fromDb .io) := rfl
  refine Spec.bind (checkParent_judged.mono ?_ (fun _ _ h => h) fun _ h => h)
  rintro - d rfl
  refine Spec.bind (Spec.get rfl ?_ fun _ => .inl rfl)
  intro height hheight
  cases htx : block.txdata with
  | nil => exact Spec.fail (.inr (.noCoinbase htx))
  | cons coinbase txs =>
      refine Spec.bind (Spec.read rfl ?_)
      refine Spec.bind (Spec.mapError (Spec.ofExcept ?_ fun source hsource => ?_))
      · intro diff _
        refine Spec.bind ((applyDiff_spec hio).mono ?_ ?_ fun _ h => h)
        · intro _ d₁ _
          refine Spec.bind (Spec.mapError ((putBlockInfo_spec hioInfo).mono ?_ ?_ fun _ h => h))
          · intro _ d₂ _
            refine Spec.bind ((currentTipCumulativeWork_spec hio).mono ?_ ?_ fun _ h => h)
            · intro tipWork d₃ _
              refine Spec.bind (Spec.get rfl ?_ fun _ => .inl rfl)
              intro work _
              by_cases hmore : BlockHandler.hasMoreWork work tipWork = true
              · simp only [if_pos hmore]
                exact Spec.bind (Spec.write rfl (Spec.pure trivial))
              · simp only [if_neg hmore]
                exact Spec.bind (Spec.pure (Spec.pure trivial))
            · exact fun _ _ h => .inl h.1
          · exact fun _ _ _ => .inl rfl
        · rintro _ _ ⟨rfl, -⟩
          exact .inl rfl
      · exact .inr (.rules hheight hsource)

/-- The block keeps to the rules. -/
structure Passes (C : Crypto) (handler : BlockHandler) (block : Block) (dbs : Dbs) : Prop where
  parent : dbs.currentChainTip.getD .allZeros = block.header.prevBlockhash
  coinbase : block.txdata ≠ []
  valid : ∃ height, dbs.height.lookup (C.blockHash block.header) = some height ∧
    (validateAndDiffBlockTransactions C (handler.clock (C.blockHash block.header)) block height
      handler.activation dbs.p2mrUtxos handler.extraPrevouts handler.pqcVerifyBudgetMs).isOk = true

theorem Judged.not_passes {e : ConnectBlockError} (h : Judged C handler block dbs e) :
    ¬ Passes C handler block dbs := by
  intro hpasses
  cases h with
  | parent h => exact h hpasses.parent
  | noCoinbase h => exact hpasses.coinbase h
  | rules hheight hinvalid =>
      obtain ⟨height, hheight', hvalid⟩ := hpasses.valid
      obtain rfl := Option.some.inj (hheight.symm.trans hheight')
      rw [hinvalid] at hvalid
      cases hvalid

theorem connectBlock_passes {s t : Store} {event : Event}
    (h : handler.connectBlock C block s = (.ok event, t)) : Passes C handler block s.dbs := by
  obtain ⟨-, height, coinbase, txs, diff, header, work, hconnects, -⟩ :=
    (connectBlock_spec fun _ h => h).ok h
  refine ⟨hconnects.onTip, ?_, height, hconnects.hasHeight, ?_⟩
  · rw [hconnects.txdata]
    exact List.cons_ne_nil coinbase txs
  · rw [hconnects.valid]
    rfl

theorem connectBlock_judgement {s t : Store} {e : ConnectBlockError}
    (h : handler.connectBlock C block s = (.error e, t)) (hrejected : e.isFatal = false) :
    Judged C handler block s.dbs e := by
  have hspec : Spec (handler.connectBlock C block) s.dbs _ _ fun e => e.isFatal = true :=
    connectBlock_judged
  rcases (hspec.error h).2 with (hfatal | hjudged) | ⟨-, hfatal⟩
  · rw [hrejected] at hfatal
    cases hfatal
  · exact hjudged
  · rw [hrejected] at hfatal
    cases hfatal

/-! ## Verdicts of the two ways -/

/-- The verdict on the next block of a batch. -/
theorem handleBlockBatch_verdict {s t : Store} {rejected : Option (BlockHash × ConnectBlockError)}
    (h : handler.handleBlockBatch C [block] s = (.ok rejected, t)) :
    rejected = none ↔ Passes C handler block s.dbs := by
  cases hconnect : handler.connectBlock C block s with
  | mk outcome u =>
      cases outcome with
      | ok event =>
          rw [BlockHandler.handleBlockBatch_accept hconnect] at h
          obtain rfl : none = rejected := Except.ok.inj (congrArg Prod.fst h)
          exact ⟨fun _ => connectBlock_passes hconnect, fun _ => rfl⟩
      | error e =>
          cases hfatal : e.isFatal with
          | true =>
              rw [BlockHandler.handleBlockBatch_fatal hconnect hfatal] at h
              cases h
          | false =>
              rw [BlockHandler.handleBlockBatch_reject hconnect hfatal] at h
              cases h
              have hnot := (connectBlock_judgement hconnect hfatal).not_passes
              exact ⟨nofun, fun hpasses => absurd hpasses hnot⟩

variable {validator : Validator} {d : Dbs}

/-- The header is stored as it would be if it were missing. -/
theorem storeHeader_same {fault : ConnectBlockError → Prop} {failed : ConnectBlockError → Dbs → Prop}
    (hfault : fault (fromDb .io)) (hheader : HeaderStored C block.header dbs d)
    (hstored : (d.header.lookup (C.blockHash block.header)).isSome = true) :
    Spec (Validator.storeHeader C block) dbs (fun stored d' => stored = true ∧ d' = d) failed fault := by
  have hput : ∀ height, d = withHeader C block.header height dbs →
      Spec (putHeaders C [(block.header, height)] >>= fun _ => pure true) dbs
        (fun stored d' => stored = true ∧ d' = d) failed fault := by
    intro height hd
    refine Spec.bind ((putHeaders_singleton_spec hfault).mono ?_ (fun _ _ h => h) fun _ h => h)
    rintro - d' rfl
    exact Spec.pure ⟨rfl, hd.symm⟩
  refine Spec.bind (Spec.read hfault ?_)
  cases hlookup : dbs.header.lookup (C.blockHash block.header) with
  | some header =>
      cases hheader with
      | kept => exact Spec.pure ⟨rfl, rfl⟩
      | added height absent _ _ =>
          rw [absent] at hlookup
          cases hlookup
  | none =>
      cases hheader with
      | kept =>
          rw [hlookup] at hstored
          cases hstored
      | added height _ parent first =>
          refine Spec.ite nofun fun _ => ?_
          refine Spec.ite (fun hzero => ?_) fun hzero => ?_
          · exact hput 0 (by rw [first hzero])
          · obtain ⟨parentHeight, hparent, hheight⟩ := parent hzero
            refine Spec.bind (Spec.tryGet hfault ?_)
            rw [hparent]
            exact hput _ (by rw [hheight])

theorem connectBlockNoCommit_verdict {extraPrevouts : PrevoutMap} {s : Store}
    (hheader : HeaderStored C block.header s.dbs d)
    (hstored : (d.header.lookup (C.blockHash block.header)).isSome = true) :
    wp (validator.connectBlockNoCommit C block extraPrevouts)
      (fun action _ => (∃ event, action = .accept event) ↔
        Passes C (validator.handler extraPrevouts) block d) (fun _ _ => True) s := by
  unfold Validator.connectBlockNoCommit
  rw [Program.wp_bind]
  have hstore : Spec (Validator.storeHeader C block) s.dbs (fun stored d' => stored = true ∧ d' = d)
      (fun _ _ => True) fun _ => True := storeHeader_same trivial hheader hstored
  refine (hstore s rfl).mono ?_ fun _ _ _ => trivial
  rintro _ t ⟨-, rfl, rfl⟩
  simp only [if_true]
  rw [Program.wp_bind, wp_access]
  refine ⟨fun _ => trivial, fun _ => ?_⟩
  rw [Program.wp_bind, Program.wp_get, Program.wp_bind, Program.wp_attempt]
  refine (Program.wp_self _ _).mono ?_ ?_
  · intro event v hrun
    have hpasses : Passes C (validator.handler extraPrevouts) block t.next.dbs := connectBlock_passes hrun
    exact ⟨fun _ => hpasses, fun _ => ⟨event, rfl⟩⟩
  · intro e v hrun
    refine Program.wp_ite.mpr ⟨fun _ => trivial, fun hfatal => ?_⟩
    have hjudged : Judged C (validator.handler extraPrevouts) block t.next.dbs e :=
      connectBlock_judgement hrun (by simpa using hfatal)
    exact ⟨nofun, fun hpasses => absurd hpasses hjudged.not_passes⟩

/-- What a connect is given from outside: nothing, where the P2MR outputs of the chain cannot be read. -/
def suppliedPrevouts (C : Crypto) (validator : Validator) (block : Block) (s : Store) : PrevoutMap :=
  if s.fails then ∅ else validator.prefetchedPrevouts C s.dbs.p2mrUtxos block

theorem connectBlockCommit_verdict {extraPrevouts : PrevoutMap} {s : Store}
    (hheader : HeaderStored C block.header s.dbs d)
    (hstored : (d.header.lookup (C.blockHash block.header)).isSome = true) :
    wp (validator.connectBlockCommit C block extraPrevouts)
      (fun action _ => action = .accept ↔ Passes C (validator.handler extraPrevouts) block d)
      (fun _ _ => True) s := by
  unfold Validator.connectBlockCommit
  rw [Program.wp_bind]
  refine wp_transaction (fun _ => trivial) ?_
  rw [Program.wp_bind]
  have hheader' : HeaderStored C block.header s.next.begin.dbs d := hheader
  refine (connectBlockNoCommit_verdict hheader' hstored).mono ?_ fun _ _ _ => trivial
  intro action t haction
  cases action with
  | accept event =>
      simp only [Program.wp_bind, commit, wp_access, Program.wp_pure]
      refine ⟨fun _ => trivial, fun _ => ⟨fun _ => trivial, fun _ => ?_⟩⟩
      exact ⟨fun _ => haction.mp ⟨event, rfl⟩, fun _ => rfl⟩
  | reject reason =>
      simp only [Program.wp_bind, commit, wp_access, Program.wp_pure]
      refine ⟨fun _ => trivial, fun _ => ⟨fun haccept => (by cases haccept), fun hpasses => ?_⟩⟩
      obtain ⟨event, hevent⟩ := haction.mpr hpasses
      cases hevent

/-- The verdict on a block that the driver presents. -/
theorem connectBlock_verdict {s : Store} (hheader : HeaderStored C block.header s.dbs d)
    (hstored : (d.header.lookup (C.blockHash block.header)).isSome = true) :
    wp (validator.connectBlock C block)
      (fun action _ => action = .accept ↔
        Passes C (validator.handler (suppliedPrevouts C validator block s)) block d)
      (fun _ _ => True) s := by
  have hheader' : HeaderStored C block.header s.next.dbs d := hheader
  unfold Validator.connectBlock Validator.prefetchExternalPrevouts suppliedPrevouts
  rw [Program.wp_bind, Program.wp_bind, Program.wp_attempt, wp_read]
  refine ⟨fun hfails => ?_, fun hfails => ?_⟩
  · rw [if_pos hfails]
    exact connectBlockCommit_verdict hheader' hstored
  · rw [if_neg hfails]
    exact connectBlockCommit_verdict hheader' hstored

end Bip360Enforcer.Validator
